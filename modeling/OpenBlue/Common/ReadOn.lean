import Mathlib.Algebra.Order.Ring.Int
import Mathlib.Data.List.Basic
/-!
# Reading on from an offset

A text that is too long for one message is served from an offset on. A
writer goes through the whole text, leaves out what lies before the offset
and writes the rest to a buffer (`Writer.add`); writing one part after the
other is writing them at once (`Writer.add_append`). The text is made of
items, and an item goes out whole or not at all: what is served is cut
before the first item that does not fit (`Cut`), so a reader that goes on
where it stopped gets the text (`Cut.reads_on`). A loop that stops at that
item serves so (`serve_cut`); one that goes on does where it finds nothing
more to write, and only there (`serve_cut_iff`); and one that asks for room
for the whole of an item that the offset lies in may stop too early
(`WholeFits`).
-/

namespace OpenBlue

open List

variable {α β : Type*} {a b head : List α} {items : List (List α)} {offset room mic k : ℕ}

/-! ## Writing -/

/-- What was written, the room that is left, and how much is still to be
left out. -/
structure Writer (α : Type*) where
  data : List α
  room : ℕ
  offset : ℕ
  deriving DecidableEq, Repr

/-- What of `a` is not before the offset is written. There must be room. -/
def Writer.add (a : List α) (w : Writer α) : Option (Writer α) :=
  if a.length - w.offset ≤ w.room then
    some ⟨w.data ++ a.drop w.offset, w.room - (a.length - w.offset), w.offset - a.length⟩
  else none

variable {w w' : Writer α}

@[simp] theorem Writer.add_nil (w : Writer α) : w.add [] = some w := by
  simp [Writer.add]

theorem Writer.add_of_le (h : a.length - w.offset ≤ w.room) :
    w.add a = some ⟨w.data ++ a.drop w.offset, w.room - (a.length - w.offset),
      w.offset - a.length⟩ :=
  if_pos h

/-- **Writing two parts is writing them at once.** -/
theorem Writer.add_append (w : Writer α) (a b : List α) :
    w.add (a ++ b) = (w.add a).bind (Writer.add b) := by
  by_cases ha : a.length - w.offset ≤ w.room
  · rw [Writer.add_of_le ha, Option.bind_some, Writer.add, Writer.add, drop_append, length_append]
    have hroom : a.length + b.length - w.offset ≤ w.room ↔
        b.length - (w.offset - a.length) ≤ w.room - (a.length - w.offset) := by omega
    split
    next h =>
      rw [if_pos (hroom.1 h), append_assoc, Nat.sub_sub w.offset,
        show w.room - (a.length + b.length - w.offset) =
          w.room - (a.length - w.offset) - (b.length - (w.offset - a.length)) by omega]
    next h => rw [if_neg (mt hroom.2 h)]
  · have hab : ¬ (a ++ b).length - w.offset ≤ w.room := by
      rw [length_append]
      omega
    rw [Writer.add, if_neg hab, Writer.add, if_neg ha, Option.bind_none]

theorem Writer.foldlM_add (f : β → List α) (l : List β) (w : Writer α) :
    l.foldlM (fun w x => w.add (f x)) w = w.add (l.flatMap f) := by
  induction l generalizing w with
  | nil => rw [foldlM_nil, flatMap_nil, Writer.add_nil]; rfl
  | cons x l ih =>
    rw [foldlM_cons, flatMap_cons, Writer.add_append]
    exact congrArg _ (funext ih)

theorem Writer.add_bind_add (w : Writer α) (a b : List α) (k : Writer α → Option β) :
    (w.add a).bind (fun w => (w.add b).bind k) = (w.add (a ++ b)).bind k := by
  rw [Writer.add_append, Option.bind_assoc]

/-! ## A cut before an item -/

/-- `w` is the text `head ++ items.flatten` from `offset` on, cut before the
first item that does not fit `room`, which has to hold `mic` more. -/
def Cut (mic : ℕ) (head : List α) (items : List (List α)) (offset room : ℕ) (w : List α) : Prop :=
  ∃ k ≤ items.length, w = (head ++ (items.take k).flatten).drop offset ∧
    (k < items.length →
      room < (head ++ (items.take (k + 1)).flatten).length - offset + mic)

variable {x : List α}

theorem Cut.prefix (h : Cut mic head items offset room x) :
    x <+: (head ++ items.flatten).drop offset := by
  obtain ⟨k, -, rfl, -⟩ := h
  have hsplit : head ++ items.flatten =
      (head ++ (items.take k).flatten) ++ (items.drop k).flatten := by
    rw [append_assoc, ← flatten_append, take_append_drop]
  have hdrop (l r : List α) : l.drop offset <+: (l ++ r).drop offset := by
    rw [drop_append]
    exact prefix_append _ _
  rw [hsplit]
  exact hdrop _ _

/-- **A reader that goes on where it stopped gets the text.** -/
theorem Cut.reads_on (h : Cut mic head items offset room x) :
    x ++ (head ++ items.flatten).drop (offset + x.length) =
      (head ++ items.flatten).drop offset := by
  obtain ⟨rest, hrest⟩ := h.prefix
  rw [← drop_drop, ← hrest, drop_left]

theorem cut_head (hmic : 0 < mic) : Cut mic head items offset room x ↔
    ∃ y, x = head.drop offset ++ y ∧
      Cut mic [] items (offset - head.length) (room - (head.length - offset)) y := by
  simp only [Cut, drop_append, length_append, nil_append]
  constructor
  · rintro ⟨k, hk, rfl, hcut⟩
    exact ⟨_, rfl, k, hk, rfl, fun hlt => by have := hcut hlt; omega⟩
  · rintro ⟨y, rfl, k, hk, rfl, hcut⟩
    exact ⟨k, hk, rfl, fun hlt => by have := hcut hlt; omega⟩

@[simp] theorem cut_nil : Cut mic ([] : List α) [] offset room x ↔ x = [] := by
  simp [Cut]

theorem cut_cons : Cut mic [] (a :: items) offset room x ↔
    x = [] ∧ room < a.length - offset + mic ∨ Cut mic a items offset room x := by
  simp only [Cut, nil_append, length_cons]
  constructor
  · rintro ⟨k, hk, hx, hcut⟩
    cases k with
    | zero =>
      have := hcut (Nat.succ_pos _)
      simp only [take_zero, flatten_nil, drop_nil, Nat.zero_add, take_succ_cons,
        flatten_cons, append_nil] at hx this
      exact .inl ⟨hx, this⟩
    | succ k =>
      exact .inr ⟨k, by omega, by simpa using hx, fun hlt => by simpa using hcut (by omega)⟩
  · rintro (⟨rfl, hcut⟩ | ⟨k, hk, hx, hcut⟩)
    · exact ⟨0, Nat.zero_le _, by simp, fun _ => by simpa using hcut⟩
    · exact ⟨k + 1, by omega, by simpa using hx, fun hlt => by simpa using hcut (by omega)⟩

theorem cut_of_room_lt (h : room < mic) : Cut mic [] items offset room [] := by
  refine ⟨0, Nat.zero_le _, by simp, fun _ => ?_⟩
  omega

theorem cut_cons_of_le (hmic : 0 < mic) (h : a.length ≤ offset) :
    Cut mic [] (a :: items) offset room x ↔ Cut mic [] items (offset - a.length) room x := by
  rw [cut_cons, cut_head hmic, drop_eq_nil_of_le h, Nat.sub_eq_zero_of_le h]
  simp only [nil_append, exists_eq_left', Nat.sub_zero, Nat.zero_add]
  constructor
  · rintro (⟨rfl, hroom⟩ | hcut)
    · exact cut_of_room_lt hroom
    · exact hcut
  · exact .inr

theorem cut_cons_of_fits (hmic : 0 < mic) (h : a.length - offset + mic ≤ room) :
    Cut mic [] (a :: items) offset room (a.drop offset ++ x) ↔
      Cut mic [] items (offset - a.length) (room - (a.length - offset)) x := by
  rw [cut_cons, cut_head hmic]
  simp only [append_cancel_left_eq, exists_eq_left']
  constructor
  · rintro (⟨-, hroom⟩ | hcut)
    · omega
    · exact hcut
  · exact .inr

theorem cut_append_of_fits (hmic : 0 < mic) {as : List (List α)}
    (h : as.flatten.length - offset + mic ≤ room) :
    Cut mic [] (as ++ items) offset room x ↔ ∃ y, x = as.flatten.drop offset ++ y ∧
      Cut mic [] items (offset - as.flatten.length) (room - (as.flatten.length - offset)) y := by
  induction as generalizing offset room x with
  | nil => simp
  | cons a as ih =>
    rw [flatten_cons, length_append] at h
    rw [cons_append, cut_cons, cut_head hmic, flatten_cons, length_append, drop_append]
    have hrest : as.flatten.length - (offset - a.length) + mic ≤ room - (a.length - offset) := by
      omega
    simp only [ih hrest, show offset - a.length - as.flatten.length =
      offset - (a.length + as.flatten.length) by omega,
      show room - (a.length - offset) - (as.flatten.length - (offset - a.length)) =
        room - (a.length + as.flatten.length - offset) by omega]
    constructor
    · rintro (⟨-, hroom⟩ | ⟨-, rfl, y, rfl, hcut⟩)
      · omega
      · exact ⟨y, by rw [append_assoc], hcut⟩
    · rintro ⟨y, rfl, hcut⟩
      exact .inr ⟨_, append_assoc .., y, rfl, hcut⟩

/-! ## Serving item by item -/

/-- The loop over the items: an item before the offset is passed over, one
that does not fit is left out, and the loop ends there where `stop` is set. -/
def serve (stop : Bool) (mic : ℕ) : List (List α) → ℕ → ℕ → List α
  | [], _, _ => []
  | a :: items, offset, room =>
    if a.length ≤ offset then serve stop mic items (offset - a.length) room
    else if room < a.length - offset + mic then
      if stop then [] else serve stop mic items offset room
    else a.drop offset ++ serve stop mic items 0 (room - (a.length - offset))

/-- None of the items of these lengths is written, where one that lies
before the offset is passed over. -/
def NoneFits (mic : ℕ) : List ℕ → ℕ → ℕ → Prop
  | [], _, _ => True
  | n :: ns, offset, room =>
    if n ≤ offset then NoneFits mic ns (offset - n) room
    else room < n - offset + mic ∧ NoneFits mic ns offset room

/-- After the first of the items of these lengths that does not fit, none
is written. -/
def NoneAfter (mic : ℕ) : List ℕ → ℕ → ℕ → Prop
  | [], _, _ => True
  | n :: ns, offset, room =>
    if n ≤ offset then NoneAfter mic ns (offset - n) room
    else if room < n - offset + mic then NoneFits mic ns offset room
    else NoneAfter mic ns 0 (room - (n - offset))

section Loops

variable {stop : Bool} {mic n offset room : ℕ} {ns : List ℕ} {a : List α} {items : List (List α)}

@[simp] theorem serve_nil : serve stop mic ([] : List (List α)) offset room = [] := rfl

theorem serve_cons : serve stop mic (a :: items) offset room =
    if a.length ≤ offset then serve stop mic items (offset - a.length) room
    else if room < a.length - offset + mic then
      if stop then [] else serve stop mic items offset room
    else a.drop offset ++ serve stop mic items 0 (room - (a.length - offset)) := rfl

@[simp] theorem noneFits_nil : NoneFits mic [] offset room := trivial

theorem noneFits_cons : NoneFits mic (n :: ns) offset room ↔
    if n ≤ offset then NoneFits mic ns (offset - n) room
    else room < n - offset + mic ∧ NoneFits mic ns offset room := .rfl

@[simp] theorem noneAfter_nil : NoneAfter mic [] offset room := trivial

theorem noneAfter_cons : NoneAfter mic (n :: ns) offset room ↔
    if n ≤ offset then NoneAfter mic ns (offset - n) room
    else if room < n - offset + mic then NoneFits mic ns offset room
    else NoneAfter mic ns 0 (room - (n - offset)) := .rfl

end Loops

/-- **A loop that stops at the first item that does not fit serves the text
cut there.** -/
theorem serve_cut (hmic : 0 < mic) :
    Cut mic [] items offset room (serve true mic items offset room) := by
  induction items generalizing offset room with
  | nil => exact cut_nil.2 rfl
  | cons a items ih =>
    rw [serve_cons]
    split
    next h => exact (cut_cons_of_le hmic h).2 ih
    split
    next hroom => exact cut_cons.2 (.inl ⟨rfl, hroom⟩)
    next h hroom =>
      rw [cut_cons_of_fits hmic (by omega), Nat.sub_eq_zero_of_le (by omega)]
      exact ih

theorem serve_of_loop {γ : Type*} {stop : Bool} {item : β → List α} {p : β → Prop}
    {loop : List β → Writer α → Option (Writer α × γ)} {done full : γ}
    (hnil : ∀ w, loop [] w = some (w, done))
    (hcons : ∀ x xs w, p x → loop (x :: xs) w =
      if (item x).length ≤ w.offset then loop xs { w with offset := w.offset - (item x).length }
      else if w.room < (item x).length - w.offset + mic then
        if stop then some (w, full) else loop xs w
      else (w.add (item x)).bind (loop xs))
    (xs : List β) (w : Writer α) (hxs : ∀ x ∈ xs, p x) :
    ∃ w' ret, loop xs w = some (w', ret) ∧
      w'.data = w.data ++ serve stop mic (xs.map item) w.offset w.room := by
  induction xs generalizing w with
  | nil => exact ⟨w, done, hnil w, by rw [map_nil, serve_nil, append_nil]⟩
  | cons x xs ih =>
    rw [forall_mem_cons] at hxs
    rw [hcons x xs w hxs.1, map_cons, serve_cons]
    split
    · exact ih _ hxs.2
    split
    · split
      · exact ⟨w, full, rfl, (append_nil _).symm⟩
      · exact ih _ hxs.2
    next hle hroom =>
      obtain ⟨w', ret, hloop, hdata⟩ := ih ⟨w.data ++ (item x).drop w.offset,
        w.room - ((item x).length - w.offset), w.offset - (item x).length⟩ hxs.2
      refine ⟨w', ret, by rw [Writer.add_of_le (by omega), Option.bind_some, hloop], ?_⟩
      rw [hdata, append_assoc, Nat.sub_eq_zero_of_le (by omega : w.offset ≤ (item x).length)]

theorem serve_length {stop : Bool} (h : serve stop mic items offset room ≠ []) :
    (serve stop mic items offset room).length + mic ≤ room := by
  induction items generalizing offset room with
  | nil => exact absurd rfl h
  | cons a items ih =>
    rw [serve_cons] at h ⊢
    split at h
    next hle => simpa only [if_pos hle] using ih h
    split at h
    next hle hroom =>
      split at h
      next => exact absurd rfl h
      next hstop =>
        simp only [if_neg hle, if_pos hroom, if_neg hstop]
        exact ih h
    next hle hroom =>
      rw [if_neg hle, if_neg hroom, length_append, length_drop]
      by_cases hrest : serve stop mic items 0 (room - (a.length - offset)) = []
      · rw [hrest, length_nil]
        omega
      · have := ih hrest
        omega

theorem serve_eq_nil_iff :
    serve false mic items offset room = [] ↔ NoneFits mic (items.map List.length) offset room := by
  induction items generalizing offset room with
  | nil => simp
  | cons a items ih =>
    rw [serve_cons, map_cons, noneFits_cons]
    split
    · exact ih
    next hle =>
      split
      next hroom => simp [hroom, ih]
      next hroom =>
        have hdrop : a.drop offset ≠ [] := by
          rw [Ne, drop_eq_nil_iff]
          exact hle
        simp [hroom, hdrop]

/-- **A loop that goes on serves the text cut at the first item that does
not fit, just where it writes none of the items after it.** -/
theorem serve_cut_iff (hmic : 0 < mic) :
    Cut mic [] items offset room (serve false mic items offset room) ↔
      NoneAfter mic (items.map List.length) offset room := by
  induction items generalizing offset room with
  | nil => simp
  | cons a items ih =>
    rw [serve_cons, map_cons, noneAfter_cons]
    split
    next hle => rw [cut_cons_of_le hmic hle, ih]
    next hle =>
    split
    next hroom =>
      rw [if_neg Bool.false_ne_true, ← serve_eq_nil_iff, cut_cons, cut_head hmic]
      constructor
      · rintro (⟨h, -⟩ | ⟨y, hy, -⟩)
        · exact h
        · -- what is written has no room for the item that did not fit
          by_contra hne
          have hlen := serve_length hne
          rw [hy, length_append, length_drop] at hlen
          omega
      · exact fun h => .inl ⟨h, hroom⟩
    next hroom =>
      rw [cut_cons_of_fits hmic (by omega), Nat.sub_eq_zero_of_le (by omega : offset ≤ a.length), ih]

/-! ## Asking for the whole item -/

/-- How many of the items of these lengths are passed over or written where
an item must fit whole, though part of it lies before the offset. -/
def wholeCount (mic : ℕ) : List ℕ → ℕ → ℕ → ℕ
  | [], _, _ => 0
  | n :: ns, offset, room =>
    if n ≤ offset then wholeCount mic ns (offset - n) room + 1
    else if room < n + mic then 0
    else wholeCount mic ns 0 (room - (n - offset)) + 1

/-- Of the items of these lengths, the one that the offset lies in fits
whole if what is left of it fits. -/
def WholeFits (mic : ℕ) : List ℕ → ℕ → ℕ → Prop
  | [], _, _ => True
  | n :: ns, offset, room =>
    if n ≤ offset then WholeFits mic ns (offset - n) room
    else n - offset + mic ≤ room → n + mic ≤ room

variable {ns ms : List ℕ}

@[simp] theorem wholeCount_nil (mic offset room : ℕ) : wholeCount mic [] offset room = 0 := rfl

theorem wholeCount_cons (mic n : ℕ) (ns : List ℕ) (offset room : ℕ) :
    wholeCount mic (n :: ns) offset room =
      if n ≤ offset then wholeCount mic ns (offset - n) room + 1 else if room < n + mic then 0
      else wholeCount mic ns 0 (room - (n - offset)) + 1 := rfl

theorem wholeFits_cons (mic n : ℕ) (ns : List ℕ) (offset room : ℕ) :
    WholeFits mic (n :: ns) offset room ↔ if n ≤ offset then WholeFits mic ns (offset - n) room
      else n - offset + mic ≤ room → n + mic ≤ room := .rfl

theorem wholeFits_zero (mic : ℕ) (ns : List ℕ) (room : ℕ) : WholeFits mic ns 0 room := by
  induction ns with
  | nil => trivial
  | cons n ns ih =>
    rw [wholeFits_cons]
    split
    · simpa using ih
    · exact fun h => by omega

theorem wholeCount_le (mic : ℕ) (ns : List ℕ) (offset room : ℕ) :
    wholeCount mic ns offset room ≤ ns.length := by
  induction ns generalizing offset room with
  | nil => exact Nat.le_refl 0
  | cons n ns ih =>
    rw [wholeCount_cons]
    split
    · exact Nat.succ_le_succ (ih _ _)
    split
    · exact Nat.zero_le _
    · exact Nat.succ_le_succ (ih _ _)

theorem wholeCount_all (hroom : mic ≤ room) (h : wholeCount mic ns offset room = ns.length) :
    ns.sum - offset + mic ≤ room := by
  induction ns generalizing offset room with
  | nil => simpa using hroom
  | cons n ns ih =>
    rw [wholeCount_cons] at h
    rw [sum_cons]
    split at h
    next hle =>
      have := ih hroom (Nat.succ.inj h)
      omega
    split at h
    next => exact nomatch h
    next hle hlt =>
      have := ih (by omega) (Nat.succ.inj h)
      omega

theorem wholeCount_lt (hwhole : WholeFits mic ns offset room)
    (h : wholeCount mic ns offset room < ns.length) :
    room < (ns.take (wholeCount mic ns offset room + 1)).sum - offset + mic := by
  induction ns generalizing offset room with
  | nil => exact absurd h (Nat.lt_irrefl 0)
  | cons n ns ih =>
    rw [wholeCount_cons] at h ⊢
    rw [wholeFits_cons] at hwhole
    rw [take_succ_cons, sum_cons]
    split at h
    next hle =>
      rw [if_pos hle] at hwhole ⊢
      have := ih hwhole (Nat.lt_of_succ_lt_succ h)
      omega
    next hle =>
      rw [if_neg hle] at hwhole ⊢
      split at h
      next hlt =>
        rw [if_pos hlt, take_zero, sum_nil]
        omega
      next hlt =>
        rw [if_neg hlt]
        have := ih (wholeFits_zero mic ns _) (Nat.lt_of_succ_lt_succ h)
        omega

theorem wholeCount_of_not (hwhole : ¬ WholeFits mic ns offset room) :
    wholeCount mic ns offset room < ns.length ∧
      (ns.take (wholeCount mic ns offset room)).sum ≤ offset ∧
      offset < (ns.take (wholeCount mic ns offset room + 1)).sum ∧
      (ns.take (wholeCount mic ns offset room + 1)).sum - offset + mic ≤ room := by
  induction ns generalizing offset room with
  | nil => exact absurd trivial hwhole
  | cons n ns ih =>
    rw [wholeFits_cons] at hwhole
    rw [wholeCount_cons, length_cons]
    split at hwhole
    next hle =>
      obtain ⟨hlt, hbefore, hafter, hfits⟩ := ih hwhole
      simp only [if_pos hle, take_succ_cons, sum_cons]
      omega
    next hle =>
      rw [Classical.not_imp, Nat.not_le] at hwhole
      simp only [if_neg hle, if_pos hwhole.2, take_zero, sum_nil, take_succ_cons, sum_cons]
      omega

theorem wholeCount_append (mic : ℕ) (ns ms : List ℕ) (offset room : ℕ) :
    wholeCount mic (ns ++ ms) offset room = if wholeCount mic ns offset room = ns.length then
        ns.length + wholeCount mic ms (offset - ns.sum) (room - (ns.sum - offset))
      else wholeCount mic ns offset room := by
  induction ns generalizing offset room with
  | nil => simp
  | cons n ns ih =>
    rw [cons_append, wholeCount_cons, wholeCount_cons, length_cons, sum_cons]
    split
    next hle =>
      simp only [ih, Nat.add_right_cancel_iff, show offset - n - ns.sum = offset - (n + ns.sum) by omega,
        show ns.sum - (offset - n) = n + ns.sum - offset by omega]
      split <;> omega
    split
    · rw [if_neg (Nat.succ_ne_zero _).symm]
    next hle hlt =>
      simp only [ih, Nat.add_right_cancel_iff, Nat.zero_sub, Nat.sub_zero,
        show offset - (n + ns.sum) = 0 by omega,
        show room - (n - offset) - ns.sum = room - (n + ns.sum - offset) by omega]
      split <;> omega

end OpenBlue

import Mathlib.Algebra.Order.Ring.Int
import Mathlib.Data.List.Basic
/-!
# A list of pieces in pages

Data made of pieces goes out in pages. A piece has a head, which is not
split and which something of its body follows on the same page, and a
body, which may be split anywhere. A page that has no room left is full,
and what is left of the pieces is for the next ones. A page can be full
with nothing left.
-/

namespace OpenBlue

open List

variable {α : Type*}

/-- A piece of the data. -/
structure Piece (α : Type*) where
  head : List α
  body : List α
  deriving DecidableEq, Repr

/-- What a piece holds. -/
def Piece.all (p : Piece α) : List α := p.head ++ p.body

/-- A page with room for `room`: what is on it, and what is left where it
is full. -/
def fill : ℕ → List (Piece α) → List α × Option (List (Piece α))
  | _, [] => ([], none)
  | room, p :: ps =>
    if room ≤ p.head.length then ([], some (p :: ps))
    else if p.head.length + p.body.length < room then
      let (page, rest) := fill (room - (p.head.length + p.body.length)) ps
      (p.all ++ page, rest)
    else if p.head.length + p.body.length = room then (p.all, some ps)
    else (p.all.take room, some (⟨[], p.body.drop (room - p.head.length)⟩ :: ps))

variable {room : ℕ} {p : Piece α} {ps : List (Piece α)}

@[simp] theorem fill_nil : fill room ([] : List (Piece α)) = ([], none) := rfl

theorem fill_cons : fill room (p :: ps) = if room ≤ p.head.length then ([], some (p :: ps))
    else if p.head.length + p.body.length < room then
      (p.all ++ (fill (room - (p.head.length + p.body.length)) ps).1,
        (fill (room - (p.head.length + p.body.length)) ps).2)
    else if p.head.length + p.body.length = room then (p.all, some ps)
    else (p.all.take room, some (⟨[], p.body.drop (room - p.head.length)⟩ :: ps)) := rfl

theorem fill_length (room : ℕ) (ps : List (Piece α)) : (fill room ps).1.length ≤ room := by
  induction ps generalizing room with
  | nil => exact Nat.zero_le room
  | cons p ps ih =>
    rw [fill_cons]
    split
    · exact Nat.zero_le room
    split
    · have hrest := ih (room - (p.head.length + p.body.length))
      simp only [Piece.all, length_append]
      omega
    split
    · simp only [Piece.all, length_append]
      omega
    · exact length_take_le room p.all

/-- **A page holds the head of the first piece as it is**, where it holds
anything of it. -/
theorem fill_head {h h' tail body : List α} (hlength : h.length = h'.length) :
    (room ≤ h.length + tail.length ∧
      fill room (⟨h ++ tail, body⟩ :: ps) = ([], some (⟨h ++ tail, body⟩ :: ps)) ∧
      fill room (⟨h' ++ tail, body⟩ :: ps) = ([], some (⟨h' ++ tail, body⟩ :: ps))) ∨
    ∃ page rest, fill room (⟨h ++ tail, body⟩ :: ps) = (h ++ page, rest) ∧
      fill room (⟨h' ++ tail, body⟩ :: ps) = (h' ++ page, rest) := by
  rw [fill_cons, fill_cons]
  dsimp only [Piece.all]
  simp only [length_append, ← hlength, append_assoc]
  split
  next hroom => exact .inl ⟨hroom, rfl, rfl⟩
  next hroom =>
  right
  split
  · exact ⟨_, _, rfl, rfl⟩
  split
  · exact ⟨_, _, rfl, rfl⟩
  · refine ⟨(tail ++ body).take (room - h.length),
      some (⟨[], body.drop (room - (h.length + tail.length))⟩ :: ps), ?_, ?_⟩
    · rw [take_append, take_of_length_le (by omega)]
    · rw [take_append, take_of_length_le (by omega), ← hlength]

end OpenBlue

import OpenBlue.Common.Bytes
/-!
# Taking bytes off a buffer

`struct bt_buf_simple` as a reader uses it: the bytes that are there from
`data` on, and `len`, which the reader takes to be there. A pull that
`len` does not allow meets the assertion of `bt_buf_simple_pull`; one that
`len` allows and the bytes do not reads outside the data. What the readers
of one format rest on is `Reads`: a reader that takes exactly the bytes of
a value off any buffer they start, with the rules for putting two
together.
-/

namespace OpenBlue

/-- How a pull fails. -/
inductive PullFault where
  | assertFailed
  | outside
  deriving DecidableEq, Repr

/-- A buffer under its reader. -/
structure Unread where
  data : List UInt8
  len : ℕ
  deriving DecidableEq, Repr

/-- What takes bytes off a buffer. -/
abbrev Pull := StateT Unread (Except PullFault)

namespace Pull

/-- `buf->len`. -/
def len : Pull ℕ := fun buf => .ok (buf.len, buf)

/-- `bt_buf_simple_pull_mem`. -/
def mem (n : ℕ) : Pull (List UInt8) := fun buf =>
  if buf.len < n then .error .assertFailed
  else if buf.data.length < n then .error .outside
  else .ok (buf.data.take n, ⟨buf.data.drop n, buf.len - n⟩)

/-- The pulls of numbers: the bytes are read before `bt_buf_simple_pull`
looks at `len`. -/
def number {α : Type} (n : ℕ) (get : List UInt8 → α) : Pull α := fun buf =>
  if buf.data.length < n then .error .outside
  else if buf.len < n then .error .assertFailed
  else .ok (get (buf.data.take n), ⟨buf.data.drop n, buf.len - n⟩)

/-- `bt_buf_simple_pull_u8`. -/
def u8 : Pull UInt8 := number 1 (·.headD 0)

/-- `bt_buf_simple_pull_le16`. -/
def le16 : Pull UInt16 := number 2 fun bs => UInt16.ofNat (leNat bs)

/-- `bt_buf_simple_pull_le24`. -/
def le24 : Pull ℕ := number 3 leNat

end Pull

variable {α β : Type} {p : Pull α} {f : α → Pull β} {a b : List UInt8} {v : α} {w : β}

/-- **A reader of a value.** It takes exactly these bytes off a buffer
that starts with them, and fails only where `len` says they are not all
there. -/
def Reads (p : Pull α) (bytes : List UInt8) (v : α) : Prop :=
  ∀ rest len, p ⟨bytes ++ rest, len⟩ =
    if bytes.length ≤ len then .ok (v, ⟨rest, len - bytes.length⟩) else .error .assertFailed

/-- A buffer that holds just what it is taken to hold. -/
def Unread.full (data : List UInt8) : Unread := ⟨data, data.length⟩

theorem Pull.bind_of_ok {buf buf' : Unread} (h : p buf = .ok (v, buf')) :
    (p >>= f) buf = f v buf' := by
  change (p buf >>= fun r => f r.1 r.2) = _
  rw [h]
  rfl

theorem Pull.len_full (data : List UInt8) :
    Pull.len (.full data) = .ok (data.length, .full data) := rfl

theorem Reads.pure (v : α) : Reads (Pure.pure v : Pull α) [] v := by
  intro rest len
  rfl

/-- **Readers in a row** take the bytes of both values. -/
theorem Reads.bind (hp : Reads p a v) (hf : Reads (f v) b w) : Reads (p >>= f) (a ++ b) w := by
  intro rest len
  have hfirst := hp (b ++ rest) len
  rw [List.append_assoc]
  change (p ⟨a ++ (b ++ rest), len⟩ >>= fun r => f r.1 r.2) = _
  rw [hfirst]
  by_cases ha : a.length ≤ len
  · rw [if_pos ha]
    change f v ⟨b ++ rest, len - a.length⟩ = _
    rw [hf rest (len - a.length), List.length_append]
    by_cases hb : b.length ≤ len - a.length
    · rw [if_pos hb, if_pos (by omega), Nat.sub_sub]
    · rw [if_neg hb, if_neg (by omega)]
  · rw [if_neg ha, if_neg (by rw [List.length_append]; omega)]
    rfl

theorem Reads.map (hp : Reads p a v) (g : α → β) :
    Reads (p >>= fun x => Pure.pure (g x)) a (g v) := by
  have h := hp.bind (f := fun x => Pure.pure (g x)) (Reads.pure (g v))
  rwa [List.append_nil] at h

theorem Reads.ok (hp : Reads p a v) (rest : List UInt8) {len : ℕ} (hlen : a.length ≤ len) :
    p ⟨a ++ rest, len⟩ = .ok (v, ⟨rest, len - a.length⟩) := by
  rw [hp rest len, if_pos hlen]

theorem Reads.bind_apply (hp : Reads p a v) (rest : List UInt8) (len : ℕ) :
    (p >>= f) ⟨a ++ rest, len⟩ =
      if a.length ≤ len then f v ⟨rest, len - a.length⟩ else .error .assertFailed := by
  change (p ⟨a ++ rest, len⟩ >>= fun r => f r.1 r.2) = _
  rw [hp rest len]
  split <;> rfl

theorem Reads.full (hp : Reads p a v) (rest : List UInt8) :
    p (.full (a ++ rest)) = .ok (v, .full rest) := by
  have h := @Reads.ok _ _ _ _ hp rest (a ++ rest).length (by simp)
  rwa [show (a ++ rest).length - a.length = rest.length by simp] at h

theorem reads_mem {n : ℕ} (h : a.length = n) : Reads (Pull.mem n) a a := by
  subst h
  intro rest len
  have hdata : ¬ a.length + rest.length < a.length := by omega
  by_cases hlen : a.length ≤ len
  · simp [Pull.mem, hlen, hdata, Nat.not_lt.mpr hlen]
  · simp [Pull.mem, hlen, Nat.lt_of_not_le hlen]

theorem reads_number {n : ℕ} {get : List UInt8 → α} (h : a.length = n) :
    Reads (Pull.number n get) a (get a) := by
  subst h
  intro rest len
  have hdata : ¬ a.length + rest.length < a.length := by omega
  by_cases hlen : a.length ≤ len
  · simp [Pull.number, hlen, hdata, Nat.not_lt.mpr hlen]
  · simp [Pull.number, hlen, hdata, Nat.lt_of_not_le hlen]

theorem reads_u8 (x : UInt8) : Reads Pull.u8 [x] x := reads_number rfl

theorem reads_le16 (n : UInt16) : Reads Pull.le16 (OpenBlue.le16 n.toNat) n := by
  have h := @reads_number _ (OpenBlue.le16 n.toNat) 2 (fun bs => UInt16.ofNat (leNat bs)) rfl
  have hval : UInt16.ofNat (leNat (OpenBlue.le16 n.toNat)) = n := by
    have := n.toNat_lt
    simp only [OpenBlue.le16, leNat, UInt8.toNat_ofNat']
    rw [show n.toNat % 2 ^ 8 + 256 * (n.toNat / 256 % 2 ^ 8 + 256 * 0) = n.toNat by omega]
    exact UInt16.ofNat_toNat
  rwa [hval] at h

theorem reads_le24 {n : ℕ} (h : n < 256 ^ 3) : Reads Pull.le24 (leBytes 3 n) n := by
  have hread := @reads_number _ (leBytes 3 n) 3 leNat (length_leBytes 3 n)
  rwa [leNat_leBytes h] at hread

end OpenBlue

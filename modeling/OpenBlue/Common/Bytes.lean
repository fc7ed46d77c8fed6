import Mathlib.Algebra.Order.Ring.Int
import Mathlib.Data.List.Basic
/-!
# Numbers as bytes

Little-endian 16-bit numbers as two bytes, as the link and L2CAP headers
carry them, and longer ones, as ATT carries UUIDs; and the same with the
highest byte first, as Mesh carries them.
-/

namespace OpenBlue

open List

/-- `sys_put_le16`. -/
def le16 (n : ℕ) : List UInt8 := [UInt8.ofNat n, UInt8.ofNat (n / 256)]

/-- `sys_get_le16`. -/
def getLe16 : List UInt8 → ℕ
  | lo :: hi :: _ => lo.toNat + 256 * hi.toNat
  | _ => 0

/-- The `n` low bytes of a number, the lowest first. -/
def leBytes : ℕ → ℕ → List UInt8
  | 0, _ => []
  | n + 1, v => UInt8.ofNat v :: leBytes n (v / 256)

/-- The number that bytes make, the lowest first. -/
def leNat : List UInt8 → ℕ
  | [] => 0
  | b :: bs => b.toNat + 256 * leNat bs

@[simp] theorem length_leBytes (n v : ℕ) : (leBytes n v).length = n := by
  induction n generalizing v with
  | zero => rfl
  | succ n ih => simp [leBytes, ih]

/-- **A number that fits its bytes is read back.** -/
theorem leNat_leBytes {n v : ℕ} (h : v < 256 ^ n) : leNat (leBytes n v) = v := by
  induction n generalizing v with
  | zero =>
    rw [Nat.pow_zero, Nat.lt_one_iff] at h
    rw [h, leBytes, leNat]
  | succ n ih =>
    have hdiv : v / 256 < 256 ^ n := by
      rw [Nat.pow_succ] at h
      exact Nat.div_lt_of_lt_mul (by omega)
    rw [leBytes, leNat, ih hdiv, UInt8.toNat_ofNat']
    omega

theorem leNat_lt (bs : List UInt8) : leNat bs < 256 ^ bs.length := by
  induction bs with
  | nil => exact Nat.one_pos
  | cons b bs ih =>
    have hb := b.toNat_lt
    rw [leNat, length_cons, Nat.pow_succ]
    omega

/-- **Bytes are those of the number they make.** -/
theorem leBytes_leNat (bs : List UInt8) : leBytes bs.length (leNat bs) = bs := by
  induction bs with
  | nil => rfl
  | cons b bs ih =>
    have hb := b.toNat_lt
    have hlow : UInt8.ofNat (b.toNat + 256 * leNat bs) = b := by
      rw [← UInt8.toNat_inj, UInt8.toNat_ofNat']
      omega
    rw [leNat, length_cons, leBytes, hlow,
      show (b.toNat + 256 * leNat bs) / 256 = leNat bs by omega, ih]

/-- The `n` low bytes of a number, the highest first. -/
def beBytes (n v : ℕ) : List UInt8 := (leBytes n v).reverse

/-- The number that bytes make, the highest first. -/
def beNat (bs : List UInt8) : ℕ := leNat bs.reverse

@[simp] theorem length_beBytes (n v : ℕ) : (beBytes n v).length = n := by
  rw [beBytes, length_reverse, length_leBytes]

theorem beNat_beBytes {n v : ℕ} (h : v < 256 ^ n) : beNat (beBytes n v) = v := by
  rw [beNat, beBytes, reverse_reverse, leNat_leBytes h]

@[simp] theorem length_le16 (n : ℕ) : (le16 n).length = 2 := rfl

/-- **A number that fits is read back.** -/
theorem getLe16_le16 {n : ℕ} (h : n < 2 ^ 16) (rest : List UInt8) :
    getLe16 (le16 n ++ rest) = n := by
  simp only [le16, cons_append, nil_append, getLe16, UInt8.toNat_ofNat']
  omega

theorem getLe16_lt (l : List UInt8) : getLe16 l < 2 ^ 16 := by
  match l with
  | [] => exact Nat.two_pow_pos 16
  | [_] => exact Nat.two_pow_pos 16
  | lo :: hi :: _ =>
    have := lo.toNat_lt
    have := hi.toNat_lt
    simp only [getLe16]
    omega

end OpenBlue

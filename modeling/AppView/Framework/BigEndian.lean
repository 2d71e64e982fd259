import Mathlib

/-!
# Numbers in network order

A number in a fixed count of bytes, the highest first, and how it is read back from the
front of a memory.
-/

namespace AppView.Framework

/-- The number in so many bytes, the highest first. -/
def toBytes : ℕ → ℕ → List UInt8
  | 0, _ => []
  | width + 1, n => UInt8.ofNat (n / 256 ^ width) :: toBytes width n

@[simp] theorem length_toBytes (width n : ℕ) : (toBytes width n).length = width := by
  induction width with
  | zero => rfl
  | succ width ih => rw [toBytes, List.length_cons, ih]

/-- The number that bytes stand for, behind those before them. -/
def ofBytes (n : ℕ) : List UInt8 → ℕ
  | [] => n
  | b :: bs => ofBytes (256 * n + b.toNat) bs

theorem ofBytes_toBytes (width m n : ℕ) :
    ofBytes m (toBytes width n) = 256 ^ width * m + n % 256 ^ width := by
  induction width generalizing m with
  | zero => simp [toBytes, ofBytes, Nat.mod_one]
  | succ width ih =>
    have hsplit : n % 256 ^ (width + 1) =
        256 ^ width * (n / 256 ^ width % 256) + n % 256 ^ width := by
      rw [pow_succ, Nat.mod_mul, Nat.add_comm]
    have hbyte : (UInt8.ofNat (n / 256 ^ width)).toNat = n / 256 ^ width % 256 :=
      UInt8.toNat_ofNat'
    rw [toBytes, ofBytes, ih, hsplit, hbyte, pow_succ]
    ring

/-- A number at the front of a memory, and the memory behind it. -/
def nextNumber (width : ℕ) (mem : List UInt8) : Option (ℕ × List UInt8) :=
  if width ≤ mem.length then some (ofBytes 0 (mem.take width), mem.drop width) else none

theorem nextNumber_toBytes {width n : ℕ} (h : n < 256 ^ width) (rest : List UInt8) :
    nextNumber width (toBytes width n ++ rest) = some (n, rest) := by
  have hlen := length_toBytes width n
  rw [nextNumber, if_pos (by simp), List.take_left' hlen, List.drop_left' hlen,
    ofBytes_toBytes, Nat.mul_zero, Nat.zero_add, Nat.mod_eq_of_lt h]

end AppView.Framework

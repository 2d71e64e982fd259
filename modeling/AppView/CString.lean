import Mathlib

/-!
# Strings of C

The string functions of the C library that the reporting side uses, on lists of bytes. A string
in a buffer ends at its first NUL.
-/

namespace AppView

def cStr (bs : List UInt8) : List UInt8 := bs.takeWhile (· ≠ 0)

theorem cStr_append_nul {x y : List UInt8} (h : ∀ c ∈ x, c ≠ 0) : cStr (x ++ 0 :: y) = x := by
  rw [cStr, List.takeWhile_append_of_pos (by simpa using h)]
  simp

def lower (b : UInt8) : UInt8 := if 65 ≤ b ∧ b ≤ 90 then b + 32 else b

def sameCase (a b : List UInt8) : Bool := a.map lower == b.map lower

def hasCase (hay needle : List UInt8) : Bool :=
  hay.tails.any fun t => (needle.map lower).isPrefixOf (t.map lower)

def isSpace (b : UInt8) : Bool := b = 32 || (9 ≤ b && b ≤ 13)

def isDigit (b : UInt8) : Bool := 48 ≤ b && b ≤ 57

def atoiDigits (bs : List UInt8) : ℕ :=
  (bs.takeWhile isDigit).foldl (fun n b => 10 * n + (b.toNat - 48)) 0

def atoi (bs : List UInt8) : ℤ :=
  match bs.dropWhile isSpace with
  | 45 :: ds => -(atoiDigits ds : ℤ)
  | 43 :: ds => atoiDigits ds
  | ds => atoiDigits ds

def strncpy (val : List UInt8) (size : ℕ) : List UInt8 :=
  (val ++ List.replicate size 0).take size

/-! ## `strtoull` with base 0 -/

def digitVal (b : UInt8) : Option ℕ :=
  if isDigit b then some (b.toNat - 48)
  else if 97 ≤ lower b ∧ lower b ≤ 122 then some ((lower b).toNat - 87)
  else none

def leadingDigits (base : ℕ) : List UInt8 → List ℕ
  | [] => []
  | b :: bs =>
    match digitVal b with
    | some v => if v < base then v :: leadingDigits base bs else []
    | none => []

def unsignedBase0 (bs : List UInt8) : ℕ :=
  let value := fun base ds => (leadingDigits base ds).foldl (fun n d => base * n + d) 0
  match bs with
  | 48 :: x :: b :: ds =>
    if lower x = 120 ∧ (leadingDigits 16 [b]).length = 1 then value 16 (b :: ds)
    else value 8 (48 :: x :: b :: ds)
  | 48 :: ds => value 8 (48 :: ds)
  | ds => value 10 ds

def strtoullBase0 (bs : List UInt8) : Option ℕ :=
  let number := fun ds => if 2 ^ 64 ≤ unsignedBase0 ds then none else some (unsignedBase0 ds)
  match bs.dropWhile isSpace with
  | 45 :: ds => (number ds).map fun n => (2 ^ 64 - n) % 2 ^ 64
  | 43 :: ds => number ds
  | ds => number ds

/-! ## `strtok_r` -/

def tokensFrom (sep : List UInt8) : Option ℕ → ℕ → List UInt8 → List (ℕ × ℕ)
  | start, at_, [] => (start.map fun s => (s, at_)).toList
  | start, at_, b :: bs =>
    if b = 0 then (start.map fun s => (s, at_)).toList
    else if b ∈ sep then (start.map fun s => (s, at_)).toList ++ tokensFrom sep none (at_ + 1) bs
    else tokensFrom sep (some (start.getD at_)) (at_ + 1) bs

def tokens (sep buf : List UInt8) : List (ℕ × ℕ) := tokensFrom sep none 0 buf

def cutAt (buf : List UInt8) (places : List ℕ) : List UInt8 :=
  buf.mapIdx fun i b => if i ∈ places then 0 else b

def textAt (buf : List UInt8) (place : ℕ) : List UInt8 := cStr (buf.drop place)

def words (sep buf : List UInt8) : List (List UInt8) :=
  (tokens sep buf).map fun t => (buf.take t.2).drop t.1

end AppView

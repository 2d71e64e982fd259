import Mathlib

/-!
# `mtcformat.c`: percent encoding

`fmtUrlEncode` writes a string with escapes for all but the unreserved characters, `fmtUrlDecode`
reads it back. **`url_round_trip`**: they are inverse to each other for every string, and both
keep to the memory that they allocate.
-/

namespace AppView.Url

open List

/-- The bytes of a `char *`, as the signed numbers they are. -/
abbrev Chars := List Int8

def isHex (x : Int8) : Bool :=
  (48 ≤ x && x ≤ 57) || (65 ≤ x && x ≤ 70) || (97 ≤ x && x ≤ 102)

def fromHex (x : Int8) : Int8 :=
  if 48 ≤ x && x ≤ 57 then x - 48
  else if 65 ≤ x && x ≤ 70 then x - 65 + 10
  else if 97 ≤ x && x ≤ 102 then x - 97 + 10
  else 0

def hex : Chars := [48, 49, 50, 51, 52, 53, 54, 55, 56, 57, 65, 66, 67, 68, 69, 70]

def toHex (code : Int8) : Int8 := hex.getD (code &&& 15).toNatClampNeg 0

def isUnreserved (x : Int8) : Bool :=
  (97 ≤ x && x ≤ 122) || (65 ≤ x && x ≤ 90) || (48 ≤ x && x ≤ 57) || x = 45 || x = 46 || x = 95 ||
    x = 126

/-- `%` -/
def percent : Int8 := 37

def strlen (s : Chars) : ℕ := (s.takeWhile (· ≠ 0)).length

/-- All that is written to `out`, with the NUL at the end. -/
def fmtUrlEncode : Chars → Chars
  | [] => [0]
  | c :: inptr =>
    if c = 0 then [0]
    else if isUnreserved c then c :: fmtUrlEncode inptr
    else percent :: toHex (c >>> 4) :: toHex c :: fmtUrlEncode inptr

def fmtUrlDecode : Chars → Chars
  | [] => [0]
  | c :: inptr =>
    if c = 0 then [0]
    else if c = percent then
      match inptr with
      | x :: y :: inptr =>
        if isHex x && isHex y then (fromHex x <<< 4 ||| fromHex y) :: fmtUrlDecode inptr else [0]
      | _ => [0]
    else c :: fmtUrlDecode inptr

inductive Encoded : Chars → Prop
  | nil : Encoded []
  | char {c : Int8} {cs : Chars} (hc : isUnreserved c) (h : Encoded cs) : Encoded (c :: cs)
  | escape {x y : Int8} {cs : Chars} (hx : isHex x) (hy : isHex y) (h : Encoded cs) :
    Encoded (percent :: x :: y :: cs)

theorem forall_byte {P : Int8 → Prop} (h : ∀ n < 256, P (Int8.ofNat n)) (c : Int8) : P c := by
  have hc := h c.toBitVec.toNat c.toBitVec.isLt
  simpa using hc

theorem escape_char : ∀ c : Int8, isHex (toHex (c >>> 4)) ∧ isHex (toHex c) ∧
    fromHex (toHex (c >>> 4)) <<< 4 ||| fromHex (toHex c) = c :=
  forall_byte (by decide +kernel)

theorem unreserved_ne : ∀ c : Int8, isUnreserved c → c ≠ percent :=
  forall_byte (by decide +kernel)

theorem isHex_ne : ∀ c : Int8, isHex c → c ≠ 0 :=
  forall_byte (by decide +kernel)

theorem strlen_cons {c : Int8} (hc : c ≠ 0) (cs : Chars) : strlen (c :: cs) = strlen cs + 1 := by
  simp [strlen, hc]

theorem fmtUrlDecode_char {c : Int8} (hzero : c ≠ 0) (hc : c ≠ percent) (cs : Chars) :
    fmtUrlDecode (c :: cs) = c :: fmtUrlDecode cs := by
  rw [fmtUrlDecode.eq_def]
  simp [hzero, hc]

theorem length_fmtUrlEncode_le (s : Chars) : (fmtUrlEncode s).length ≤ strlen s * 3 + 1 := by
  fun_induction fmtUrlEncode s with
  | case1 => exact Nat.le_refl 1
  | case2 => exact Nat.le_add_left 1 _
  | case3 c inptr hzero hc ih =>
    rw [strlen_cons hzero, length_cons]
    omega
  | case4 c inptr hzero hc ih =>
    rw [strlen_cons hzero, length_cons, length_cons, length_cons]
    omega

theorem length_fmtUrlDecode_le (s : Chars) : (fmtUrlDecode s).length ≤ strlen s + 1 := by
  fun_induction fmtUrlDecode s with
  | case3 x y inptr hhex hne ih =>
    rw [Bool.and_eq_true] at hhex
    rw [strlen_cons hne, strlen_cons (isHex_ne x hhex.1), strlen_cons (isHex_ne y hhex.2),
      length_cons]
    omega
  | case6 c inptr hzero hc ih =>
    rw [strlen_cons hzero, length_cons]
    omega
  | _ => exact Nat.le_add_left 1 _

theorem fmtUrlEncode_spec {s : Chars} (hnul : 0 ∉ s) :
    (∃ e, fmtUrlEncode (s ++ [0]) = e ++ [0] ∧ Encoded e) ∧
      fmtUrlDecode (fmtUrlEncode (s ++ [0])) = s ++ [0] := by
  induction s with
  | nil => exact ⟨⟨[], rfl, .nil⟩, rfl⟩
  | cons c s ih =>
    rw [mem_cons, not_or] at hnul
    obtain ⟨⟨e, he, hencoded⟩, hdecode⟩ := ih hnul.2
    have hzero : c ≠ 0 := Ne.symm hnul.1
    rw [cons_append, fmtUrlEncode, if_neg hzero]
    split_ifs with hc
    · refine ⟨⟨c :: e, congrArg _ he, .char hc hencoded⟩, ?_⟩
      rw [fmtUrlDecode_char hzero (unreserved_ne c hc), hdecode]
    · obtain ⟨hx, hy, hback⟩ := escape_char c
      refine ⟨⟨percent :: toHex (c >>> 4) :: toHex c :: e, by rw [he]; rfl,
        .escape hx hy hencoded⟩, ?_⟩
      rw [fmtUrlDecode, if_neg (by decide), if_pos rfl, hx, hy, if_pos (by decide), hback, hdecode]

/-- **Encoded and decoded again.** -/
theorem url_round_trip (s : Chars) (hnul : 0 ∉ s) :
    fmtUrlDecode (fmtUrlEncode (s ++ [0])) = s ++ [0] ∧
      (∃ e, fmtUrlEncode (s ++ [0]) = e ++ [0] ∧ Encoded e) ∧
      (fmtUrlEncode (s ++ [0])).length ≤ strlen (s ++ [0]) * 3 + 1 ∧
      ∀ text, (fmtUrlDecode text).length ≤ strlen text + 1 :=
  ⟨(fmtUrlEncode_spec hnul).2, (fmtUrlEncode_spec hnul).1, length_fmtUrlEncode_le _,
    length_fmtUrlDecode_le⟩

theorem url_round_trip_slash : fmtUrlDecode (fmtUrlEncode ([97, 47, -1] ++ [0])) =
    [97, 47, -1] ++ [0] :=
  (url_round_trip [97, 47, -1] (by decide)).1

end AppView.Url

import Mathlib

/-!
# Integers and flat objects of integers as text

`decimal` is what `%d` prints. `compact` is the text of an object whose members are all
integers, without blanks: `{"a":1,"b":-2}`. Both have a reader, and reading gives back what was
printed.
-/

namespace AppView.Framework

open List Option
open Nat (toDigits)

/-! ## Decimal numbers -/

theorem length_toDigits_mono {m n : ℕ} (h : m ≤ n) :
    (toDigits 10 m).length ≤ (toDigits 10 n).length := by
  have hn : n < 10 ^ (toDigits 10 n).length :=
    (Nat.length_toDigits_le_iff (by decide) Nat.length_toDigits_pos).1 le_rfl
  exact (Nat.length_toDigits_le_iff (by decide) Nat.length_toDigits_pos).2 (h.trans_lt hn)

variable {c : Char} {rest : List Char} {fs : List (List Char × ℤ)}

theorem isDigit_of_mem_toDigits {n : ℕ} (h : c ∈ toDigits 10 n) : c.isDigit = true :=
  Nat.isDigit_of_mem_toDigits (by decide) le_rfl h

/-- An integer as `%d` prints it. -/
def decimal : ℤ → List Char
  | .ofNat n => toDigits 10 n
  | .negSucc n => '-' :: toDigits 10 (n + 1)

theorem decimal_natCast (n : ℕ) : decimal n = toDigits 10 n := rfl

theorem mem_decimal {z : ℤ} (h : c ∈ decimal z) : c.isDigit = true ∨ c = '-' := by
  cases z with
  | ofNat n => exact .inl (isDigit_of_mem_toDigits h)
  | negSucc n =>
    rcases mem_cons.1 h with rfl | h
    · exact .inr rfl
    · exact .inl (isDigit_of_mem_toDigits h)

theorem toNat_of_isAlpha (h : c.isAlpha = true) : 0 < c.toNat ∧ c.toNat < 128 := by
  simp only [Char.isAlpha, Char.isUpper, Char.isLower, Bool.or_eq_true, Bool.and_eq_true,
    decide_eq_true_eq, UInt32.le_iff_toNat_le] at h
  rcases h with h | h <;>
    exact ⟨lt_of_lt_of_le (by decide) h.1, lt_of_le_of_lt h.2 (by decide)⟩

theorem toNat_of_mem_decimal {z : ℤ} (h : c ∈ decimal z) : 0 < c.toNat ∧ c.toNat < 128 := by
  rcases mem_decimal h with h | rfl
  · simp only [Char.isDigit, Bool.and_eq_true, decide_eq_true_eq, ge_iff_le,
      UInt32.le_iff_toNat_le] at h
    exact ⟨lt_of_lt_of_le (by decide) h.1, lt_of_le_of_lt h.2 (by decide)⟩
  · decide

/-- The number that the text begins with, and the rest. -/
def readNat (cs : List Char) : Option (ℕ × List Char) :=
  if cs.takeWhile Char.isDigit = [] then none
  else some (Nat.ofDigitChars 10 (cs.takeWhile Char.isDigit) 0, cs.dropWhile Char.isDigit)

def readInt : List Char → Option (ℤ × List Char)
  | '-' :: cs => (readNat cs).map fun r => (-(r.1 : ℤ), r.2)
  | cs => (readNat cs).map fun r => ((r.1 : ℤ), r.2)

/-- What follows a number does not go on with a digit. -/
def NoDigit (rest : List Char) : Prop := ∀ c ∈ rest.head?, c.isDigit = false

theorem takeWhile_toDigits (n : ℕ) (h : NoDigit rest) :
    (toDigits 10 n ++ rest).takeWhile Char.isDigit = toDigits 10 n ∧
    (toDigits 10 n ++ rest).dropWhile Char.isDigit = rest := by
  have hdigits : ∀ c ∈ toDigits 10 n, Char.isDigit c = true :=
    fun c hc => isDigit_of_mem_toDigits hc
  rw [takeWhile_append_of_pos hdigits, dropWhile_append_of_pos hdigits]
  cases rest with
  | nil => simp
  | cons c rest =>
    have hc : c.isDigit = false := h c rfl
    simp [hc]

theorem readNat_toDigits (n : ℕ) (h : NoDigit rest) :
    readNat (toDigits 10 n ++ rest) = some (n, rest) := by
  obtain ⟨htake, hdrop⟩ := takeWhile_toDigits n h
  rw [readNat, htake, hdrop, if_neg Nat.toDigits_ne_nil, Nat.ofDigitChars_ten_toDigits]

theorem readInt_decimal (z : ℤ) (h : NoDigit rest) :
    readInt (decimal z ++ rest) = some (z, rest) := by
  cases z with
  | ofNat n =>
    have hdash : ∀ cs, toDigits 10 n ++ rest ≠ '-' :: cs := by
      intro cs hcs
      obtain ⟨c, ds, hds⟩ := exists_cons_of_ne_nil (Nat.toDigits_ne_nil (b := 10) (n := n))
      have hc := isDigit_of_mem_toDigits (n := n) (c := c) (by simp [hds])
      rw [hds] at hcs
      obtain rfl : c = '-' := (cons.inj hcs).1
      exact absurd hc (by decide)
    rw [decimal, readInt]
    · simp [readNat_toDigits n h]
    · exact hdash
  | negSucc n =>
    simp only [decimal, cons_append, readInt, readNat_toDigits _ h, map_some]
    rw [Int.negSucc_eq]
    rfl

/-! ## Objects -/

/-- `"name":value` -/
def member (f : List Char × ℤ) : List Char := '"' :: (f.1 ++ '"' :: ':' :: decimal f.2)

/-- The members after the first, each with its comma, and the closing brace. -/
def furtherMembers : List (List Char × ℤ) → List Char
  | [] => ['}']
  | f :: fs => ',' :: (member f ++ furtherMembers fs)

/-- The text of an object, without blanks. -/
def compact : List (List Char × ℤ) → List Char
  | [] => ['{', '}']
  | f :: fs => '{' :: (member f ++ furtherMembers fs)

/-- Names that are printed as they are. -/
def PlainName (name : List Char) : Prop := ∀ c ∈ name, c.isAlpha = true

instance (name : List Char) : Decidable (PlainName name) :=
  List.decidableBAll (fun c : Char => c.isAlpha = true) name

theorem toNat_of_mem_compact (hfs : ∀ f ∈ fs, PlainName f.1) (hc : c ∈ compact fs) :
    0 < c.toNat ∧ c.toNat < 128 := by
  have hmember : ∀ f ∈ fs, ∀ c ∈ member f, 0 < c.toNat ∧ c.toNat < 128 := by
    intro f hf c hc
    simp only [member, mem_cons, mem_append] at hc
    rcases hc with rfl | hc | rfl | rfl | hc
    · decide
    · exact toNat_of_isAlpha (hfs f hf c hc)
    · decide
    · decide
    · exact toNat_of_mem_decimal hc
  have hfurther : ∀ gs, (∀ g ∈ gs, g ∈ fs) → ∀ c ∈ furtherMembers gs,
      0 < c.toNat ∧ c.toNat < 128 := by
    intro gs
    induction gs with
    | nil =>
      intro _ c hc
      obtain rfl : c = '}' := by simpa [furtherMembers] using hc
      decide
    | cons g gs ih =>
      intro hgs c hc
      simp only [furtherMembers, mem_cons, mem_append] at hc
      rcases hc with rfl | hc | hc
      · decide
      · exact hmember g (hgs g (.head _)) c hc
      · exact ih (fun f hf => hgs f (.tail _ hf)) c hc
  cases fs with
  | nil =>
    simp only [compact, mem_cons, not_mem_nil, or_false] at hc
    rcases hc with rfl | rfl <;> decide
  | cons f fs =>
    simp only [compact, mem_cons, mem_append] at hc
    rcases hc with rfl | hc | hc
    · decide
    · exact hmember f (.head _) c hc
    · exact hfurther fs (fun g hg => .tail _ hg) c hc

def readMember : List Char → Option ((List Char × ℤ) × List Char)
  | '"' :: cs =>
    match cs.dropWhile (· ≠ '"') with
    | '"' :: ':' :: rest =>
      (readInt rest).map fun r => ((cs.takeWhile (· ≠ '"'), r.1), r.2)
    | _ => none
  | _ => none

def readFurther : ℕ → List Char → Option (List (List Char × ℤ))
  | _, ['}'] => some []
  | fuel + 1, ',' :: cs =>
    (readMember cs).bind fun r => (readFurther fuel r.2).map fun fs => r.1 :: fs
  | _, _ => none

/-- The members of an object that `compact` has printed. -/
def readCompact : List Char → Option (List (List Char × ℤ))
  | '{' :: cs =>
    if cs = ['}'] then some []
    else (readMember cs).bind fun r => (readFurther cs.length r.2).map fun fs => r.1 :: fs
  | _ => none

theorem readMember_member {f : List Char × ℤ} (hf : PlainName f.1) (h : NoDigit rest) :
    readMember (member f ++ rest) = some (f, rest) := by
  have hname : ∀ c ∈ f.1, decide (c ≠ '"') = true := by
    intro c hc
    have halpha := hf c hc
    rw [decide_eq_true_eq]
    rintro rfl
    exact absurd halpha (by decide)
  simp only [member, cons_append, append_assoc, readMember]
  rw [takeWhile_append_of_pos hname, dropWhile_append_of_pos hname]
  simp [readInt_decimal _ h]

theorem noDigit_further (fs : List (List Char × ℤ)) : NoDigit (furtherMembers fs) := by
  cases fs with
  | nil | cons f fs => simp [NoDigit, furtherMembers]

theorem length_furtherMembers (fs : List (List Char × ℤ)) :
    fs.length < (furtherMembers fs).length := by
  induction fs with
  | nil => simp [furtherMembers]
  | cons f fs ih =>
    simp only [furtherMembers, length_cons, length_append]
    omega

theorem readFurther_furtherMembers (hfs : ∀ f ∈ fs, PlainName f.1) {fuel : ℕ}
    (hfuel : fs.length ≤ fuel) : readFurther fuel (furtherMembers fs) = some fs := by
  induction fs generalizing fuel with
  | nil => cases fuel <;> rfl
  | cons f fs ih =>
    obtain ⟨fuel, rfl⟩ : ∃ k, fuel = k + 1 := ⟨fuel - 1, by simp at hfuel; omega⟩
    have hrest := ih (fun g hg => hfs g (.tail _ hg)) (by simpa using hfuel)
    simp [furtherMembers, readFurther, readMember_member (hfs f (.head _)) (noDigit_further
      fs), hrest]

/-- **Reading gives back what was printed.** -/
theorem readCompact_compact (hfs : ∀ f ∈ fs, PlainName f.1) :
    readCompact (compact fs) = some fs := by
  cases fs with
  | nil => rfl
  | cons f fs =>
    have hrest : readFurther (member f ++ furtherMembers fs).length (furtherMembers fs) =
        some fs := by
      refine readFurther_furtherMembers (fun g hg => hfs g (.tail _ hg)) ?_
      rw [length_append]
      exact (length_furtherMembers fs).le.trans (Nat.le_add_left _ _)
    have hsome : member f ++ furtherMembers fs ≠ ['}'] := by simp [member]
    simp only [compact, readCompact, if_neg hsome, readMember_member (hfs f (.head _))
      (noDigit_further fs), bind_some, hrest, map_some]

end AppView.Framework

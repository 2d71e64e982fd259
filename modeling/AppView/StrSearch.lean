import AppView.Framework.SkipSearch

/-!
# `strsearch.c`: literal string search

`searchComp` precomputes the Horspool shift table of a needle, `searchExec` looks for the
needle in a buffer of raw bytes.
-/

namespace AppView

open AppView.Framework List Function

def cInt (n : ℕ) : ℤ :=
  if n % 2 ^ 32 < 2 ^ 31 then (n % 2 ^ 32 : ℕ) else (n % 2 ^ 32 : ℕ) - 2 ^ 32

theorem cInt_le (n : ℕ) : cInt n ≤ n := by
  unfold cInt
  split <;> omega

theorem cInt_lt (n : ℕ) : cInt n < 2 ^ 31 := by
  unfold cInt
  split <;> omega

variable {n : ℕ} {str hay : List UInt8}

theorem cInt_of_lt (h : n < 2 ^ 31) : cInt n = n := by
  unfold cInt
  split <;> omega

variable {k j : ℕ} {hlen : ℤ}

theorem cInt_sub (hk : (k : ℤ) ≤ cInt n) : cInt (n - k) = cInt n - k := by
  unfold cInt at *
  split at hk <;> split <;> omega

structure Search where
  str : List UInt8
  bmBc : UInt8 → ℕ

def searchLen (handle : Search) : ℕ := handle.str.length

def bmBcTable (str : List UInt8) : UInt8 → ℕ :=
  (List.range (str.length - 1)).foldl
    (fun t i => Function.update t (str.getD i 0) (str.length - i - 1))
    (fun _ => str.length)

def searchComp (inputStr : List UInt8) : Option Search :=
  if inputStr = [] then none else some ⟨inputStr, bmBcTable inputStr⟩

def OccursAt (str hay : List UInt8) (j : ℕ) : Prop := str <+: hay.drop j

instance (str hay : List UInt8) (j : ℕ) : Decidable (OccursAt str hay j) :=
  inferInstanceAs (Decidable (str <+: hay.drop j))

def testAt (handle : Search) (hay : List UInt8) (j : ℕ) : Bool :=
  handle.str.getD (searchLen handle - 1) 0 == hay.getD (j + searchLen handle - 1) 0 &&
    handle.str.take (searchLen handle - 1) ==
      (hay.drop j).take (searchLen handle - 1)

def searchExec (handle : Search) (hay : List UInt8) (hlen : ℤ) : Option ℕ :=
  if hlen < 0 then none
  else
    skipSearch (testAt handle hay)
      (fun j => handle.bmBc (hay.getD (j + searchLen handle - 1) 0))
      (hlen.toNat + 1 - searchLen handle) (hlen.toNat + 2) 0

/-! ## The shift table -/

theorem bmBcTable_fold (str : List UInt8) (c : UInt8) (hne : str ≠ []) : ∀ n ≤ str.length - 1,
      let t := (range n).foldl (fun t i => update t (str.getD i 0) (str.length - i - 1))
        (fun _ => str.length)
      0 < t c ∧ ∀ i < n, str.getD i 0 = c → t c ≤ str.length - i - 1 := by
  have hpos : 0 < str.length := length_pos_iff.mpr hne
  intro n
  induction n with
  | zero =>
    intro _
    exact ⟨hpos, fun i hi => absurd hi (Nat.not_lt_zero i)⟩
  | succ n ih =>
    intro hn
    obtain ⟨hp, hle⟩ := ih (by omega)
    simp only [range_succ, foldl_append, foldl_cons, foldl_nil]
    by_cases hc : c = str.getD n 0
    · subst hc
      simp only [update_self]
      exact ⟨by omega, fun i hi _ => by omega⟩
    · rw [update_of_ne hc]
      refine ⟨hp, fun i hi hic => ?_⟩
      rcases Nat.lt_succ_iff_lt_or_eq.mp hi with hlt | rfl
      · exact hle i hlt hic
      · exact absurd hic.symm hc

theorem bmBcTable_le_length (str : List UInt8) (c : UInt8) : bmBcTable str c ≤ str.length := by
  unfold bmBcTable
  generalize str.length - 1 = n
  induction n with
  | zero => exact le_rfl
  | succ n ih =>
    simp only [range_succ, foldl_append, foldl_cons, foldl_nil]
    by_cases hc : c = str.getD n 0
    · subst hc
      simp only [update_self]
      omega
    · rw [update_of_ne hc]
      exact ih

theorem bmBcTable_le (hne : str ≠ []) {i : ℕ} (hi : i < str.length - 1) :
    bmBcTable str (str.getD i 0) ≤ str.length - i - 1 :=
  (bmBcTable_fold str _ hne _ le_rfl).2 i hi rfl

/-! ## The loop finds the leftmost occurrence -/

theorem prefix_iff_getD {l : List UInt8} (h : str.length ≤ l.length) :
    str <+: l ↔ ∀ i < str.length, str.getD i 0 = l.getD i 0 := by
  rw [prefix_iff_getElem, exists_prop_of_true h]
  refine forall₂_congr fun i hi => ?_
  rw [getD_eq_getElem _ _ hi, getD_eq_getElem _ _ (by omega)]

theorem testAt_iff (handle : Search) (hne : handle.str ≠ [])
    (hj : j + searchLen handle ≤ hay.length) :
    testAt handle hay j = true ↔ OccursAt handle.str hay j := by
  have hpos : 0 < handle.str.length := length_pos_iff.mpr hne
  unfold searchLen at hj
  have hget : ∀ i, (hay.drop j).getD i 0 = hay.getD (j + i) 0 := by
    intro i
    simp [getD_eq_getElem?_getD, getElem?_drop]
  unfold OccursAt
  rw [prefix_iff_getD (by rw [length_drop]; omega)]
  simp only [testAt, searchLen, Bool.and_eq_true, beq_iff_eq]
  constructor
  · rintro ⟨hlast, hinit⟩ i hi
    rcases Nat.lt_or_ge i (handle.str.length - 1) with hlt | hge
    · have := congrArg (fun l => l.getD i 0) hinit
      simpa [getD_eq_getElem?_getD, getElem?_take_of_lt hlt] using this
    · obtain rfl : i = handle.str.length - 1 := by omega
      rw [hlast, hget, Nat.add_sub_assoc hpos]
  · intro hall
    refine ⟨?_, ?_⟩
    · rw [hall _ (by omega), hget, Nat.add_sub_assoc hpos]
    · apply ext_getElem
      · simp only [length_take, length_drop]
        omega
      · intro i h1 h2
        simp only [length_take] at h1
        have := hall i (by omega)
        rw [getD_eq_getElem _ _ (by omega),
          getD_eq_getElem _ _ (by rw [length_drop]; omega)] at this
        rw [getElem_take, getElem_take, this]

theorem testAt_bmBc (hne : str ≠ []) (hn : n ≤ hay.length) (hk : k < n + 1 - str.length) :
    testAt ⟨str, bmBcTable str⟩ hay k = true ↔ OccursAt str hay k := by
  exact testAt_iff ⟨str, bmBcTable str⟩ hne (by simp only [searchLen]; omega)

theorem bmBc_safe (hne : str ≠ []) (hn : n ≤ hay.length) :
    SafeSkip (testAt ⟨str, bmBcTable str⟩ hay)
      (fun j => bmBcTable str (hay.getD (j + str.length - 1) 0)) (n + 1 - str.length) := by
  have hpos : 0 < str.length := length_pos_iff.mpr hne
  refine ⟨fun j => (bmBcTable_fold str _ hne _ le_rfl).1, ?_⟩
  intro j k hj _ hjk hk hkb
  by_contra hne'
  have hocc : OccursAt str hay k := (testAt_bmBc hne hn hkb).mp (by simpa using hne')
  have hlt : k < j + str.length := by
    by_contra hge
    have hle := bmBcTable_le_length str (hay.getD (j + str.length - 1) 0)
    omega
  have hi : j + str.length - 1 - k < str.length - 1 := by omega
  have hbyte : str.getD (j + str.length - 1 - k) 0 = hay.getD (j + str.length - 1) 0 := by
    have hpre := (prefix_iff_getD (by rw [length_drop]; omega)).mp hocc
      (j + str.length - 1 - k) (by omega)
    rw [hpre]
    simp only [getD_eq_getElem?_getD, getElem?_drop]
    congr 2
    omega
  have hle := bmBcTable_le hne hi
  rw [hbyte] at hle
  omega

/-- **`searchExec` returns the leftmost occurrence** that ends within the
`int` length it was given. -/
theorem searchExec_eq_some (hne : str ≠ []) (hle : hlen ≤ hay.length) :
    searchExec ⟨str, bmBcTable str⟩ hay hlen = some j ↔
      (j + str.length : ℤ) ≤ hlen ∧ OccursAt str hay j ∧ ∀ k < j, ¬ OccursAt str hay k := by
  have hpos : 0 < str.length := length_pos_iff.mpr hne
  unfold searchExec
  split
  · simp only [reduceCtorEq, false_iff]
    rintro ⟨h, -⟩
    omega
  · have hn : hlen.toNat ≤ hay.length := by omega
    have htest := fun k hk => testAt_bmBc hne hn (k := k) hk
    simp only [searchLen]
    rw [skipSearch_eq_some (bmBc_safe hne hn) (by omega)]
    constructor
    · rintro ⟨hj, ht, hmin⟩
      refine ⟨by omega, (htest j hj).mp ht, fun k hk hocc => ?_⟩
      have := (htest k (by omega)).mpr hocc
      rw [hmin k hk] at this
      exact Bool.noConfusion this
    · rintro ⟨hj, hocc, hmin⟩
      have hjb : j < hlen.toNat + 1 - str.length := by omega
      refine ⟨hjb, (htest j hjb).mpr hocc, fun k hk => ?_⟩
      cases ht : testAt ⟨str, bmBcTable str⟩ hay k with
      | false => rfl
      | true => exact absurd ((htest k (by omega)).mp ht) (hmin k hk)

theorem searchExec_eq_none (hne : str ≠ []) (hle : hlen ≤ hay.length) :
    searchExec ⟨str, bmBcTable str⟩ hay hlen = none ↔
      ∀ k : ℕ, (k + str.length : ℤ) ≤ hlen → ¬ OccursAt str hay k := by
  rw [Option.eq_none_iff_forall_ne_some]
  constructor
  · intro hnone k hk hocc
    -- with an occurrence there is a first one
    have hex : ∃ k, OccursAt str hay k := ⟨k, hocc⟩
    have hfirst := Nat.find_min' hex hocc
    refine hnone (Nat.find hex) ((searchExec_eq_some hne hle).2 ⟨by omega, Nat.find_spec hex, ?_⟩)
    exact fun i hi => Nat.find_min hex hi
  · intro hall j hj
    obtain ⟨hin, hocc, -⟩ := (searchExec_eq_some hne hle).1 hj
    exact hall j hin hocc

/-- **Horspool search** returns the leftmost occurrence within the `int` length, if any. -/
theorem search_leftmost : (searchComp str).bind (searchExec · hay (cInt hay.length)) = some j ↔
      str ≠ [] ∧ (j + str.length : ℤ) ≤ cInt hay.length ∧ OccursAt str hay j ∧
        ∀ k < j, ¬ OccursAt str hay k := by
  unfold searchComp
  split_ifs with hne
  · simp [hne]
  · rw [Option.bind_some, searchExec_eq_some hne (cInt_le _)]
    simp [hne]

end AppView

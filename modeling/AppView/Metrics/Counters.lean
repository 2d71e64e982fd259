import AppView.StrSearch
import AppView.Types

/-!
# Counters (`atomic.h`, and the counter functions of `report.c`)

A counter never wraps: `atomicAddU64` stops at the largest value and `atomicSubU64` at zero.
-/

namespace AppView.Metrics

open List Function

/-! ## `atomic.h` -/

def atomicAddU64 (oldval val : UInt64) : UInt64 :=
  let newval := oldval + val
  if newval < oldval then 0xFFFFFFFFFFFFFFFF else newval

def atomicSubU64 (oldval val : UInt64) : UInt64 :=
  if val > oldval then 0 else oldval - val

theorem atomicAddU64_toNat (a b : UInt64) :
    (atomicAddU64 a b).toNat = min (a.toNat + b.toNat) (2 ^ 64 - 1) := by
  have ha := a.toNat_lt
  have hb := b.toNat_lt
  have hsum : (a + b).toNat = (a.toNat + b.toNat) % 2 ^ 64 := UInt64.toNat_add a b
  unfold atomicAddU64
  by_cases h : a.toNat + b.toNat < 2 ^ 64
  · rw [Nat.mod_eq_of_lt h] at hsum
    have hnot : ¬ a + b < a := by
      rw [UInt64.lt_iff_toNat_lt, hsum]
      omega
    simp only [if_neg hnot, hsum]
    omega
  · have hmod : (a.toNat + b.toNat) % 2 ^ 64 = a.toNat + b.toNat - 2 ^ 64 := by omega
    rw [hmod] at hsum
    have hlt : a + b < a := by
      rw [UInt64.lt_iff_toNat_lt, hsum]
      omega
    simp only [if_pos hlt]
    have hmax : (0xFFFFFFFFFFFFFFFF : UInt64).toNat = 2 ^ 64 - 1 := rfl
    omega

theorem atomicSubU64_toNat (a b : UInt64) : (atomicSubU64 a b).toNat = a.toNat - b.toNat := by
  unfold atomicSubU64
  by_cases h : b > a
  · have hlt : a.toNat < b.toNat := UInt64.lt_iff_toNat_lt.mp h
    rw [if_pos h]
    have hz : (0 : UInt64).toNat = 0 := rfl
    omega
  · have hle : b ≤ a := UInt64.not_lt.mp h
    rw [if_neg h, UInt64.toNat_sub_of_le a b hle]

/-! ## Conversions -/

def u64 (size : ℤ) : UInt64 := UInt64.ofNat (size % 2 ^ 64).toNat

theorem u64_toNat {size : ℤ} (h0 : 0 ≤ size) (h : size < 2 ^ 63) :
    (u64 size).toNat = size.toNat := by
  unfold u64
  rw [Int.emod_eq_of_lt h0 (by omega), UInt64.toNat_ofNat', Nat.mod_eq_of_lt (by omega)]

def longLong (x : UInt64) : ℤ :=
  if x.toNat < 2 ^ 63 then x.toNat else x.toNat - 2 ^ 64

/-! ## Counter pairs, and the structs they are fields of -/

def addToInterfaceCounts (value : CountersElement) (x : UInt64) : CountersElement :=
  ⟨atomicAddU64 value.mtc x, atomicAddU64 value.evt x⟩

def subFromInterfaceCounts (value : CountersElement) (x : UInt64) : CountersElement :=
  ⟨atomicSubU64 value.mtc x, atomicSubU64 value.evt x⟩

@[simp] theorem addToInterfaceCounts_mtc (value : CountersElement) (x : UInt64) :
    (addToInterfaceCounts value x).mtc.toNat = min (value.mtc.toNat + x.toNat) (2 ^ 64 - 1) :=
  atomicAddU64_toNat value.mtc x

@[simp] theorem subFromInterfaceCounts_mtc (value : CountersElement) (x : UInt64) :
    (subFromInterfaceCounts value x).mtc.toNat = value.mtc.toNat - x.toNat :=
  atomicSubU64_toNat value.mtc x

section Named

variable {ι : Type} [DecidableEq ι]

def addTo (c : ι → CountersElement) (n : ι) (x : UInt64) : ι → CountersElement :=
  Function.update c n (addToInterfaceCounts (c n) x)

def subFrom (c : ι → CountersElement) (n : ι) (x : UInt64) : ι → CountersElement :=
  Function.update c n (subFromInterfaceCounts (c n) x)

def swapMtc (c : ι → CountersElement) (n : ι) : ι → CountersElement :=
  Function.update c n { c n with mtc := 0 }

def swapEvt (c : ι → CountersElement) (n : ι) : ι → CountersElement :=
  Function.update c n { c n with evt := 0 }

variable (c : ι → CountersElement) {n m : ι} (x : UInt64)

@[simp] theorem addTo_same : addTo c n x n = addToInterfaceCounts (c n) x :=
  update_self n _ c

@[simp] theorem addTo_ne (h : m ≠ n) : addTo c n x m = c m :=
  update_of_ne h _ c

@[simp] theorem subFrom_same : subFrom c n x n = subFromInterfaceCounts (c n) x :=
  update_self n _ c

@[simp] theorem subFrom_ne (h : m ≠ n) : subFrom c n x m = c m :=
  update_of_ne h _ c

@[simp] theorem swapMtc_same : swapMtc c n n = { c n with mtc := 0 } :=
  update_self n _ c

@[simp] theorem swapMtc_ne (h : m ≠ n) : swapMtc c n m = c m :=
  update_of_ne h _ c

@[simp] theorem swapEvt_same : swapEvt c n n = { c n with evt := 0 } :=
  update_self n _ c

@[simp] theorem swapEvt_ne (h : m ≠ n) : swapEvt c n m = c m :=
  update_of_ne h _ c

@[simp] theorem swapEvt_mtc (m : ι) : (swapEvt c n m).mtc = (c m).mtc := by
  by_cases h : m = n
  · rw [h, swapEvt_same]
  · rw [swapEvt_ne c h]

theorem foldl_addTo_ne (adds : List (ι × UInt64)) (h : ∀ a ∈ adds, m ≠ a.1) :
    adds.foldl (fun c a => addTo c a.1 a.2) c m = c m :=
  foldlRecOn (motive := fun d => d m = c m) adds _ rfl fun d hd a ha =>
    (addTo_ne d a.2 (h a ha)).trans hd

theorem foldl_swapMtc_ne (adds : List (ι × UInt64)) (h : ∀ a ∈ adds, m ≠ a.1) :
    adds.foldl (fun c a => swapMtc c a.1) c m = c m :=
  foldlRecOn (motive := fun d => d m = c m) adds _ rfl fun d hd a ha =>
    (swapMtc_ne d (h a ha)).trans hd

end Named

end AppView.Metrics

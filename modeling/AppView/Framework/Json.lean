import Mathlib

/-!
# Documents with named members

A JSON value over any type of texts, and the operations of a C library on it: an item is looked
up by name, and items are added behind the others whatever the kind of the value is.
-/

namespace AppView.Framework

open List
open Prod (fst)

/-! ## Member lists -/

section Members

variable {κ α : Type*} [DecidableEq κ] {k k' : κ} {v w : α} {ms ms' : List (κ × α)}

/-- The first member of this name. -/
def memberOf (k : κ) : List (κ × α) → Option α
  | [] => none
  | (k', v) :: ms => if k' = k then some v else memberOf k ms

/-- The first member of this name is set, or one is added at the end. -/
def put (k : κ) (v : α) : List (κ × α) → List (κ × α)
  | [] => [(k, v)]
  | (k', v') :: ms => if k' = k then (k, v) :: ms else (k', v') :: put k v ms

@[simp] theorem memberOf_put_self : memberOf k (put k v ms) = some v := by
  induction ms with
  | nil => simp [put, memberOf]
  | cons m ms ih =>
    rw [put]
    split_ifs with hk
    · simp [memberOf]
    · simp [memberOf, hk, ih]

@[simp] theorem memberOf_put_of_ne (h : k' ≠ k) : memberOf k' (put k v ms) = memberOf k' ms := by
  induction ms with
  | nil => simp [put, memberOf, h.symm]
  | cons m ms ih =>
    rw [put]
    split_ifs with hk
    · simp [memberOf, hk, h.symm]
    · simp [memberOf, ih]

theorem put_put : put k w (put k v ms) = put k w ms := by
  induction ms with
  | nil => simp [put]
  | cons m ms ih =>
    rw [put, put]
    split_ifs with hk
    · simp [put]
    · rw [put, if_neg hk, ih]

/-- One member is set and all the others stay, in order. -/
def Sets (k : κ) (v : α) (ms ms' : List (κ × α)) : Prop :=
  (∃ pre old post, ms = pre ++ (k, old) :: post ∧ k ∉ pre.map fst ∧
      ms' = pre ++ (k, v) :: post) ∨
    (k ∉ ms.map fst ∧ ms' = ms ++ [(k, v)])

omit [DecidableEq κ] in
theorem Sets.cons (h : Sets k v ms ms') {m : κ × α} (hm : m.1 ≠ k) :
    Sets k v (m :: ms) (m :: ms') := by
  rcases h with ⟨pre, old, post, rfl, hpre, rfl⟩ | ⟨hms, rfl⟩
  · refine .inl ⟨m :: pre, old, post, rfl, ?_, rfl⟩
    rw [map_cons, mem_cons, not_or]
    exact ⟨hm.symm, hpre⟩
  · refine .inr ⟨?_, rfl⟩
    rw [map_cons, mem_cons, not_or]
    exact ⟨hm.symm, hms⟩

theorem sets_put (k : κ) (v : α) (ms : List (κ × α)) : Sets k v ms (put k v ms) := by
  induction ms with
  | nil => exact .inr ⟨not_mem_nil, rfl⟩
  | cons m ms ih =>
    rw [put]
    split_ifs with hk
    · subst hk
      exact .inl ⟨[], m.2, ms, rfl, not_mem_nil, rfl⟩
    · exact ih.cons hk

end Members

/-! ## Values -/

inductive Json (τ : Type) where
  | null
  | bool (b : Bool)
  | number (n : τ)
  | string (s : τ)
  | array (items : List (Json τ))
  | object (members : List (τ × Json τ))

namespace Json

variable {τ : Type}

/-- The items of a value; those of an array have no name. -/
def children [Inhabited τ] : Json τ → List (τ × Json τ)
  | .array items => items.map fun item => (default, item)
  | .object members => members
  | _ => []

/-- The value with other items. Only arrays and objects show them. -/
def withChildren : Json τ → List (τ × Json τ) → Json τ
  | .array _, items => .array (items.map Prod.snd)
  | .object _, items => .object items
  | j, _ => j

/-- The item of this name. -/
def item [DecidableEq τ] (j : Json τ) (name : τ) : Option (Json τ) :=
  match j with
  | .object members => memberOf name members
  | _ => none

/-- An item is added at the end. -/
def add [Inhabited τ] (j : Json τ) (name : τ) (v : Json τ) : Json τ :=
  j.withChildren (j.children ++ [(name, v)])

/-- An item without a name is added at the end. -/
def push [Inhabited τ] (j v : Json τ) : Json τ := j.add default v

/-- The item of this name is changed in its place, or added. -/
def setItem [DecidableEq τ] [Inhabited τ] (j : Json τ) (name : τ) (v : Json τ) : Json τ :=
  match j with
  | .object members => .object (put name v members)
  | j => j.add name v

@[simp] theorem item_object [DecidableEq τ] (name : τ) (ms : List (τ × Json τ)) :
    (object ms).item name = memberOf name ms := rfl

@[simp] theorem setItem_object [DecidableEq τ] [Inhabited τ] (name : τ) (v : Json τ)
    (ms : List (τ × Json τ)) : (object ms).setItem name v = object (put name v ms) := rfl

@[simp] theorem push_array [Inhabited τ] (v : Json τ) (items : List (Json τ)) :
    (array items).push v = array (items ++ [v]) := by
  simp [push, add, withChildren, children, Function.comp_def]

end Json

end AppView.Framework

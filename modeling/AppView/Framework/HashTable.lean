import Mathlib

/-!
# Hash tables with collision lists

A table of lists of items, an item in the list its key is hashed to. An item is appended unless
its key is in the list already, found by a walk along the list, and unlinked by such a walk.
-/

namespace AppView.Framework

open List Function

variable {κ ι δ : Type*} [DecidableEq κ]

/-! ## One list -/

namespace Items

/-- The data of the first item with the key. -/
def find (key : κ) : List (κ × δ) → Option δ
  | [] => none
  | item :: items => if item.1 = key then some item.2 else find key items

/-- The list with an item at its end, unless the key is there. -/
def add (key : κ) (data : δ) : List (κ × δ) → Option (List (κ × δ))
  | [] => some [(key, data)]
  | item :: items => if item.1 = key then none else (add key data items).map (item :: ·)

/-- The list without the first item with the key. -/
def remove (key : κ) : List (κ × δ) → List (κ × δ)
  | [] => []
  | item :: items => if item.1 = key then items else item :: remove key items

variable {key : κ} {items : List (κ × δ)} {data : δ}

theorem find_eq_none_iff : find key items = none ↔ key ∉ items.map Prod.fst := by
  induction items with
  | nil => simp [find]
  | cons item items ih =>
    by_cases h : item.1 = key
    · simp [find, h]
    · simp [find, h, ih, Ne.symm h]

theorem find_eq_some_iff {d : δ} (hnodup : (items.map Prod.fst).Nodup) :
    find key items = some d ↔ (key, d) ∈ items := by
  induction items with
  | nil => simp [find]
  | cons item items ih =>
    rw [map_cons, nodup_cons] at hnodup
    by_cases h : item.1 = key
    · have hnot : (key, d) ∉ items := fun hmem => hnodup.1 (h ▸ mem_map_of_mem hmem)
      simp [find, Prod.ext_iff, h, hnot, eq_comm]
    · simp [find, Prod.ext_iff, h, ih hnodup.2, Ne.symm h]

theorem add_of_none (h : find key items = none) :
    add key data items = some (items ++ [(key, data)]) := by
  induction items with
  | nil => rfl
  | cons item items ih =>
    simp only [find] at h
    split_ifs at h with hk
    simp [add, hk, ih h]

theorem add_of_some {d : δ} (h : find key items = some d) : add key data items = none := by
  induction items with
  | nil => cases h
  | cons item items ih =>
    by_cases hk : item.1 = key
    · simp [add, hk]
    · rw [find, if_neg hk] at h
      simp [add, hk, ih h]

theorem find_append_of_none {k : κ} (h : find key items = none) :
    find k (items ++ [(key, data)]) = if k = key then some data else find k items := by
  induction items with
  | nil => simp [find, eq_comm]
  | cons item items ih =>
    simp only [find] at h
    split_ifs at h with hk
    by_cases hik : item.1 = k
    · have hne : k ≠ key := fun hkey => hk (hik.trans hkey)
      simp [find, hik, hne]
    · simp [find, hik, ih h]

theorem remove_sublist (key : κ) (items : List (κ × δ)) : (remove key items).Sublist items := by
  induction items with
  | nil => exact Sublist.refl _
  | cons item items ih =>
    rw [remove]
    split_ifs
    · exact sublist_cons_self _ _
    · exact ih.cons_cons _

theorem find_remove {k : κ} (hnodup : (items.map Prod.fst).Nodup) :
    find k (remove key items) = if k = key then none else find k items := by
  induction items with
  | nil => simp [remove, find]
  | cons item items ih =>
    rw [map_cons, nodup_cons] at hnodup
    by_cases hik : item.1 = key
    · -- the item goes, and no other one has its key
      by_cases hk : k = key
      · subst hk
        have hnone : find k items = none := find_eq_none_iff.2 (hik ▸ hnodup.1)
        simp [remove, hik, hnone]
      · have hne : item.1 ≠ k := fun h => hk (h.symm.trans hik)
        simp only [remove, find, if_pos hik, if_neg hne, if_neg hk]
    · by_cases hi : item.1 = k
      · have hne : k ≠ key := fun h => hik (hi.trans h)
        simp only [remove, find, if_neg hik, if_pos hi, if_neg hne]
      · simp only [remove, find, if_neg hik, if_neg hi, ih hnodup.2]

end Items

/-! ## The table -/

structure HashTable (κ ι δ : Type*) where
  bucket : ι → List (κ × δ)
  nodup : ∀ i, ((bucket i).map Prod.fst).Nodup

namespace HashTable

def empty : HashTable κ ι δ := ⟨fun _ => [], fun _ => nodup_nil⟩

variable [DecidableEq ι] (hash : κ → ι)

def get (t : HashTable κ ι δ) (key : κ) : Option δ := Items.find key (t.bucket (hash key))

variable {items : List (κ × δ)} {key : κ} {t : HashTable κ ι δ}

omit [DecidableEq κ] in
theorem nodup_update {i : ι} (h : (items.map Prod.fst).Nodup) (j : ι) :
    ((update t.bucket i items j).map Prod.fst).Nodup := by
  exact (forall_update_iff t.bucket fun _ b => (b.map Prod.fst).Nodup).2 ⟨h, fun k _ => t.nodup k⟩ j

theorem nodup_add {data : δ} {items' : List (κ × δ)} (hnodup : (items.map Prod.fst).Nodup)
    (h : Items.add key data items = some items') : (items'.map Prod.fst).Nodup := by
  cases hf : Items.find key items with
  | some d =>
    rw [Items.add_of_some hf] at h
    cases h
  | none =>
    rw [Items.add_of_none hf] at h
    cases h
    rw [map_append, nodup_append]
    refine ⟨hnodup, nodup_singleton _, ?_⟩
    rintro a ha b hb rfl
    obtain rfl : a = key := by simpa using hb
    exact Items.find_eq_none_iff.1 hf ha

/-- Whether the item was saved, and the table. -/
def save (t : HashTable κ ι δ) (key : κ) (data : δ) : HashTable κ ι δ × Bool :=
  match h : Items.add key data (t.bucket (hash key)) with
  | none => (t, false)
  | some items =>
    (⟨Function.update t.bucket (hash key) items, nodup_update (nodup_add (t.nodup _) h)⟩, true)

def delete (t : HashTable κ ι δ) (key : κ) : HashTable κ ι δ :=
  ⟨Function.update t.bucket (hash key) (Items.remove key (t.bucket (hash key))),
    nodup_update ((t.nodup _).sublist ((Items.remove_sublist _ _).map _))⟩

theorem find_update (t : HashTable κ ι δ) {r : Option δ}
    (h : ∀ k, Items.find k items = if k = key then r else Items.find k (t.bucket (hash key)))
    (k : κ) : Items.find k (update t.bucket (hash key) items (hash k)) =
      update (get hash t) key r k := by
  by_cases hk : k = key
  · subst hk
    rw [update_self, update_self, h, if_pos rfl]
  · rw [update_of_ne hk]
    by_cases hh : hash k = hash key
    · -- a collision: another item of the same list
      rw [hh, update_self, h, if_neg hk, get, hh]
    · rw [update_of_ne hh]
      rfl

/-- **Saving is an update of the map**, of a key that has no data. -/
theorem get_save {data : δ} (h : get hash t key = none) : (save hash t key data).2 = true ∧
      get hash (save hash t key data).1 = update (get hash t) key (some data) := by
  have hadd : Items.add key data (t.bucket (hash key)) =
      some (t.bucket (hash key) ++ [(key, data)]) := Items.add_of_none h
  unfold save
  split
  · rename_i hnone
    rw [hadd] at hnone
    cases hnone
  · rename_i items hsome
    rw [hadd] at hsome
    cases hsome
    refine ⟨rfl, funext fun k => ?_⟩
    exact find_update hash t (fun k => Items.find_append_of_none h) k

theorem save_of_some {data : δ} (h : get hash t key ≠ none) :
    save hash t key data = (t, false) := by
  obtain ⟨d, hd⟩ := Option.ne_none_iff_exists'.1 h
  unfold save
  split
  · rfl
  · rename_i items hsome
    rw [Items.add_of_some hd] at hsome
    cases hsome

/-- Every item is in the list that its key is hashed to. -/
def Placed (t : HashTable κ ι δ) : Prop := ∀ i, ∀ x ∈ t.bucket i, hash x.1 = i

omit [DecidableEq κ] in
theorem Placed.update (h : Placed hash t)
    (hitems : ∀ x ∈ items, x ∈ t.bucket (hash key) ∨ x.1 = key) (i : ι) :
    ∀ x ∈ update t.bucket (hash key) items i, hash x.1 = i := by
  intro x hx
  by_cases hi : i = hash key
  · subst hi
    rw [update_self] at hx
    rcases hitems x hx with hx | rfl
    · exact h _ x hx
    · rfl
  · rw [update_of_ne hi] at hx
    exact h i x hx

theorem Placed.save (h : Placed hash t) (key : κ) (data : δ) :
    Placed hash (save hash t key data).1 := by
  unfold HashTable.save
  split
  · exact h
  · rename_i items hadd
    refine h.update hash fun x hx => ?_
    cases hfind : Items.find key (t.bucket (hash key)) with
    | some d =>
      rw [Items.add_of_some hfind] at hadd
      cases hadd
    | none =>
      rw [Items.add_of_none hfind] at hadd
      cases hadd
      rw [mem_append, mem_singleton] at hx
      exact hx.imp_right fun hx => by rw [hx]

theorem Placed.delete (h : Placed hash t) (key : κ) : Placed hash (delete hash t key) :=
  h.update hash fun _ hx => .inl ((Items.remove_sublist _ _).subset hx)

/-- **Deleting is an update of the map.** -/
theorem get_delete (t : HashTable κ ι δ) (key : κ) :
    get hash (delete hash t key) = update (get hash t) key none :=
  funext fun k => find_update hash t (fun _ => Items.find_remove (t.nodup _)) k

end HashTable

end AppView.Framework

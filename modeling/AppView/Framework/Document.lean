import Mathlib

/-!
# Documents walked by tables of handlers

A document is a tree of scalars, sequences and mappings.
-/

namespace AppView.Framework

open List

/-! ## Documents -/

inductive Node where
  | scalar (value : String)
  | sequence (items : List Node)
  | mapping (pairs : List (Node × Node))

inductive Shape where
  | scalar | sequence | mapping
  deriving DecidableEq, Repr

def Node.shape : Node → Shape
  | .scalar _ => .scalar
  | .sequence _ => .sequence
  | .mapping _ => .mapping

/-- One mapping of a sequence. -/
abbrev Entry := List (Node × Node)

/-- The pairs of an entry whose key and value are scalars. -/
def field : Node × Node → Option (String × String)
  | (.scalar key, .scalar value) => some (key, value)
  | _ => none

def fields (e : Entry) : List (String × String) := e.filterMap field

/-- Every mapping of a sequence. -/
def entries : List Node → List Entry
  | [] => []
  | .mapping pairs :: items => pairs :: entries items
  | _ :: items => entries items

/-- The mappings in front of the first item that is not one. -/
def leading : List Node → List Entry
  | .mapping pairs :: items => pairs :: leading items
  | _ => []

/-- The mappings behind the first item that is not one. -/
def unread : List Node → List Entry
  | .mapping _ :: items => unread items
  | items => entries items

theorem entries_eq (items : List Node) : entries items = leading items ++ unread items := by
  induction items with
  | nil => rfl
  | cons item items ih =>
    cases item with
    | mapping pairs => exact congrArg (pairs :: ·) ih
    | scalar value => rfl
    | sequence below => rfl

/-- The sequences a mapping holds under a key, a key given twice included. -/
def listsAt (key : String) (pairs : Entry) : List (List Node) :=
  pairs.filterMap fun pair => match pair with
    | (.scalar k, .sequence items) => if k = key then some items else none
    | _ => none

/-- The value of a pair, if it has this shape and stands under this key. -/
def valueAt (shape : Shape) (key : String) (pair : Node × Node) : Option Node :=
  match pair.1 with
  | .scalar k => if pair.2.shape = shape ∧ k = key then some pair.2 else none
  | _ => none

def valuesAt (shape : Shape) (key : String) (pairs : Entry) : List Node :=
  pairs.filterMap (valueAt shape key)

theorem valuesAt_sequence (key : String) (pairs : Entry) :
    valuesAt .sequence key pairs = (listsAt key pairs).map .sequence := by
  rw [valuesAt, listsAt, map_filterMap]
  congr 1
  funext ⟨k, v⟩
  cases k with
  | sequence below => rfl
  | mapping below => rfl
  | scalar k => cases v <;> by_cases hk : k = key <;> simp [valueAt, Node.shape, hk]

/-! ## Walks -/

variable {σ τ : Type*}

/-- What to do with a value of this shape under this key. -/
structure Handler (σ : Type*) where
  shape : Shape
  key : String
  fn : Node → σ → σ

/-- The first handler of the table that fits the pair is called. -/
def dispatch (table : List (Handler σ)) (s : σ) (pair : Node × Node) : σ :=
  match pair.1 with
  | .scalar key =>
    match table.find? fun h => pair.2.shape = h.shape ∧ key = h.key with
    | some h => h.fn pair.2 s
    | none => s
  | _ => s

/-- All pairs of a mapping, in order; another node is ignored. -/
def walk (table : List (Handler σ)) (node : Node) (s : σ) : σ :=
  match node with
  | .mapping pairs => pairs.foldl (dispatch table) s
  | _ => s

/-- The body is called for each mapping; another item ends the walk. -/
def eachEntry (body : Entry → σ → σ) : List Node → σ → σ
  | .mapping pairs :: items, s => eachEntry body items (body pairs s)
  | _, s => s

variable {s : σ} {t : τ}

theorem dispatch_keeps {P : σ → Prop} {table : List (Handler σ)}
    (keep : ∀ h ∈ table, ∀ node s, P s → P (h.fn node s)) (hs : P s) (pair : Node × Node) :
    P (dispatch table s pair) := by
  unfold dispatch
  split
  · split
    · rename_i h hfind
      exact keep h (mem_of_find?_eq_some hfind) _ s hs
    · exact hs
  · exact hs

/-! ## Simulations -/

variable {R : σ → τ → Prop}

theorem eachEntry_simulates {body : Entry → σ → σ} {g : τ → Entry → τ}
    (step : ∀ s t e, R s t → R (body e s) (g t e)) (h : R s t) (items : List Node) :
    R (eachEntry body items s) ((leading items).foldl g t) := by
  induction items generalizing s t with
  | nil => exact h
  | cons item items ih =>
    cases item with
    | mapping pairs => exact ih (step s t pairs h)
    | scalar value => exact h
    | sequence below => exact h

theorem foldl_dispatch (shape : Shape) (key : String) (fn : Node → σ → σ) (pairs : Entry) (s : σ) :
    pairs.foldl (dispatch [⟨shape, key, fn⟩]) s =
      (valuesAt shape key pairs).foldl (fun s v => fn v s) s := by
  rw [valuesAt, foldl_filterMap]
  congr 1
  funext s ⟨k, v⟩
  cases k with
  | sequence below => rfl
  | mapping below => rfl
  | scalar k =>
    by_cases h : v.shape = shape ∧ k = key <;> simp [dispatch, valueAt, h]

theorem dispatch_simulates {key : String} {fn : Node → σ → σ} {g : τ → List Node → τ}
    (step : ∀ s t items, R s t → R (fn (.sequence items) s) (g t items)) (h : R s t)
    (pairs : Entry) :
    R (pairs.foldl (dispatch [⟨.sequence, key, fn⟩]) s) ((listsAt key pairs).foldl g t) := by
  rw [foldl_dispatch, valuesAt_sequence, foldl_map]
  exact foldl_rel h fun items _ s t => step s t items

theorem scalars_simulate {k₁ k₂ : String} {fn₁ fn₂ : Node → σ → σ} {g : τ → String × String → τ}
    (first : ∀ s t v, R s t → R (fn₁ (.scalar v) s) (g t (k₁, v)))
    (second : ∀ s t v, R s t → R (fn₂ (.scalar v) s) (g t (k₂, v)))
    (other : ∀ t k v, k ≠ k₁ → k ≠ k₂ → g t (k, v) = t) (h : R s t) (e : Entry) :
    R (e.foldl (dispatch [⟨.scalar, k₁, fn₁⟩, ⟨.scalar, k₂, fn₂⟩]) s) ((fields e).foldl g t) := by
  induction e generalizing s t with
  | nil => exact h
  | cons pair e ih =>
    obtain ⟨k, v⟩ := pair
    have skip : dispatch [⟨.scalar, k₁, fn₁⟩, ⟨.scalar, k₂, fn₂⟩] s (k, v) = s →
        (fields ((k, v) :: e)).foldl g t = (fields e).foldl g t →
        R (((k, v) :: e).foldl (dispatch [⟨.scalar, k₁, fn₁⟩, ⟨.scalar, k₂, fn₂⟩]) s)
          ((fields ((k, v) :: e)).foldl g t) := by
      intro hs hf
      rw [foldl_cons, hs, hf]
      exact ih h
    cases k with
    | sequence below | mapping below => exact skip rfl rfl
    | scalar k =>
      cases v with
      | sequence items | mapping below => exact skip (by simp [dispatch, Node.shape]) rfl
      | scalar v =>
        by_cases h₁ : k = k₁
        · subst h₁
          simpa [dispatch, Node.shape, fields, field] using ih (first s t v h)
        · by_cases h₂ : k = k₂
          · subst h₂
            simpa [dispatch, Node.shape, fields, field, h₁] using ih (second s t v h)
          · refine skip (by simp [dispatch, Node.shape, h₁, h₂]) ?_
            simp [fields, field, other t k v h₁ h₂]

/-! ## The last word -/

variable {β : Type*}

/-- Those that say something overwrite what was said before. -/
def hear (word : α → Option β) (b : β) (a : α) : β := (word a).getD b

theorem foldl_hear_iff (word : α → Option β) (b c : β) (as : List α) : as.foldl (hear word) c = b ↔
      (∃ pre a post, as = pre ++ a :: post ∧ word a = some b ∧
        ∀ x ∈ post, ∀ y, word x = some y → y = b) ∨
      (c = b ∧ ∀ x ∈ as, ∀ y, word x = some y → y = b) := by
  induction as generalizing c with
  | nil => simp
  | cons a as ih =>
    rw [foldl_cons, ih]
    constructor
    · rintro (⟨pre, x, post, rfl, hx, hpost⟩ | ⟨hc, has⟩)
      · exact .inl ⟨a :: pre, x, post, rfl, hx, hpost⟩
      · cases ha : word a with
        | none =>
          refine .inr ⟨by simpa [hear, ha] using hc, ?_⟩
          intro x hx y hy
          rcases mem_cons.mp hx with rfl | hx
          · rw [ha] at hy
            cases hy
          · exact has x hx y hy
        | some z =>
          have hz : z = b := by simpa [hear, ha] using hc
          exact .inl ⟨[], a, as, rfl, hz ▸ ha, has⟩
    · rintro (⟨pre, x, post, heq, hx, hpost⟩ | ⟨hc, has⟩)
      · cases pre with
        | nil =>
          obtain ⟨rfl, rfl⟩ := cons.inj heq
          exact .inr ⟨by simp [hear, hx], hpost⟩
        | cons z pre =>
          obtain ⟨rfl, rfl⟩ := cons.inj heq
          exact .inl ⟨pre, x, post, rfl, hx, hpost⟩
      · refine .inr ⟨?_, fun x hx => has x (mem_cons_of_mem a hx)⟩
        cases ha : word a with
        | none => simpa [hear, ha] using hc
        | some z => simpa [hear, ha] using has a mem_cons_self z ha

end AppView.Framework

import AppView.Framework.Runs
import AppView.Http.Report

/-!
# The stores of `httpmatch.c`

Requests and HTTP/2 channels are kept by the id of their connection. **`store_refines_map`**:
saving, finding and deleting are the operations of a map, whatever ids collide. `storeExpire`
unlinks through `previous`, which is set to `current` after `deleteHashTableItem` has made that
NULL; so where two entries in a row expire, the second one is unlinked at the head of its list,
and what was kept before them is lost. **`storeExpire_exact_iff`**: this is the only way it
goes wrong.
-/

namespace AppView.Http.Store

open AppView.Framework List HashTable

/-! ## The store -/

structure Item (δ : Type) where
  sockfd : ℤ
  data : δ
  circBufCount : UInt64

abbrev Table (δ : Type) := HashTable UInt64 (Fin 257) (Item δ)

variable {δ : Type}

def storeSave (store : Table δ) (data : δ) (sockid : UInt64) (sockfd : ℤ) : Table δ × Bool :=
  store.save hashOfKey sockid ⟨sockfd, data, 0⟩

def storeGet (store : Table δ) (sockid : UInt64) : Option δ :=
  (store.get hashOfKey sockid).map Item.data

def storeDelete (store : Table δ) (sockid : UInt64) : Table δ × List δ :=
  (store.delete hashOfKey sockid, (storeGet store sockid).toList)

/-! ## A store is a map -/

inductive Op (δ : Type) where
  | save (data : δ) (sockid : UInt64) (sockfd : ℤ)
  | get (sockid : UInt64)
  | delete (sockid : UInt64)

inductive Reply (δ : Type) where
  | saved (ok : Bool)
  | found (data : Option δ)
  | deleted (released : List δ)
  deriving DecidableEq

def step (store : Table δ) : Op δ → Table δ × Reply δ
  | .save data sockid sockfd =>
    let r := storeSave store data sockid sockfd
    (r.1, .saved r.2)
  | .get sockid => (store, .found (storeGet store sockid))
  | .delete sockid =>
    let r := storeDelete store sockid
    (r.1, .deleted r.2)

def mapStep (m : UInt64 → Option δ) : Op δ → (UInt64 → Option δ) × Reply δ
  | .save data sockid _ =>
    if m sockid = none then (Function.update m sockid (some data), .saved true)
    else (m, .saved false)
  | .get sockid => (m, .found (m sockid))
  | .delete sockid => (Function.update m sockid none, .deleted (m sockid).toList)

theorem storeGet_update {store store' : Table δ} {sockid : UInt64} {r : Option (Item δ)}
    (h : store'.get hashOfKey = Function.update (store.get hashOfKey) sockid r) :
    storeGet store' = Function.update (storeGet store) sockid (r.map Item.data) := by
  funext k
  rw [storeGet, h]
  by_cases hk : k = sockid
  · rw [hk, Function.update_self, Function.update_self]
  · rw [Function.update_of_ne hk, Function.update_of_ne hk]
    rfl

theorem mapStep_storeGet (store : Table δ) (op : Op δ) :
    mapStep (storeGet store) op = (storeGet (step store op).1, (step store op).2) := by
  cases op with
  | save data sockid sockfd =>
    have hsome : storeGet store sockid = none ↔ store.get hashOfKey sockid = none :=
      Option.map_eq_none_iff
    rw [mapStep, step, storeSave]
    split_ifs with h
    · obtain ⟨hok, hget⟩ := get_save hashOfKey (hsome.1 h)
      rw [hok, storeGet_update hget]
      rfl
    · rw [save_of_some hashOfKey fun hnone => h (hsome.2 hnone)]
  | get sockid => rfl
  | delete sockid =>
    rw [mapStep, step, storeDelete, storeGet_update (get_delete hashOfKey store sockid)]
    rfl

/-- **A store is a map.** After every sequence of operations the replies were those of a map, and
what can be found is what is in it: an id that is there is not saved again, and what is deleted is
released, once. -/
theorem store_refines_map (ops : List (Op δ)) : run mapStep (fun _ => none) ops =
      (storeGet (run step (empty : Table δ) ops).1, (run step (empty : Table δ) ops).2) :=
  run_map storeGet mapStep_storeGet empty ops

/-! ## Expiry -/

structure Net where
  uid : UInt64
  active : Bool

structure Tick where
  netInfo : ℤ → Net
  /-- `lstFind` in `extraNetInfo` -/
  extraNetInfo : UInt64 → Option Net
  cbufSize : UInt64
  circBufCount : UInt64
  circBufWasEmptied : Bool

def expired (e : Tick) (item : Item δ) : Bool :=
  item.circBufCount ≠ 0 &&
    (e.circBufWasEmptied || item.circBufCount + e.cbufSize < e.circBufCount)

def Tick.net (e : Tick) (sockid : UInt64) (sockfd : ℤ) : Option Net :=
  if sockfd < 0 ∨ netEntries ≤ sockfd then e.extraNetInfo sockid else some (e.netInfo sockfd)

def mark (e : Tick) (sockid : UInt64) (item : Item δ) : Item δ :=
  if (e.net sockid item.sockfd).all (fun net => net.uid ≠ sockid || !net.active) ∧
      item.circBufCount = 0 then
    { item with circBufCount := e.circBufCount }
  else item

def expireList (e : Tick) : List (UInt64 × Item δ) → Bool → List (UInt64 × Item δ) →
    List (UInt64 × Item δ) × List δ
  | ahead, _, [] => (ahead, [])
  | ahead, previous, current :: next =>
    if expired e current.2 then
      let r := expireList e (if previous then ahead else []) false next
      (r.1, current.2.data :: r.2)
    else expireList e (ahead ++ [(current.1, mark e current.1 current.2)]) true next

def kept (e : Tick) (items : List (UInt64 × Item δ)) : List (UInt64 × Item δ) :=
  (items.filter fun x => !expired e x.2).map fun x => (x.1, mark e x.1 x.2)

section Lists

variable {e : Tick} {ahead items : List (UInt64 × Item δ)} {previous : Bool}

theorem kept_cons (x : UInt64 × Item δ) (items : List (UInt64 × Item δ)) : kept e (x :: items) =
      if expired e x.2 then kept e items else (x.1, mark e x.1 x.2) :: kept e items := by
  by_cases hx : expired e x.2 = true <;> simp [kept, hx]

theorem expireList_released (e : Tick) (ahead items : List (UInt64 × Item δ)) (previous : Bool) :
    (expireList e ahead previous items).2 =
      (items.filter fun x => expired e x.2).map fun x => x.2.data := by
  induction items generalizing ahead previous with
  | nil => rfl
  | cons x items ih =>
    by_cases hx : expired e x.2 = true
    · simp [expireList, hx, ih]
    · simp [expireList, hx, ih]

theorem expireList_sublist (e : Tick) (ahead items : List (UInt64 × Item δ)) (previous : Bool) :
    (expireList e ahead previous items).1.Sublist (ahead ++ kept e items) := by
  induction items generalizing ahead previous with
  | nil => simp [expireList, kept]
  | cons x items ih =>
    rw [expireList, kept_cons]
    split_ifs with hx hprevious
    · exact ih ahead false
    · exact (ih [] false).trans (sublist_append_right _ _)
    · exact (ih _ true).trans (by rw [append_assoc]; exact Sublist.refl _)

def Clear (e : Tick) (items : List (UInt64 × Item δ)) : Prop :=
  ∀ before x y after, items = before ++ x :: y :: after → expired e x.2 = true →
    expired e y.2 = true → ∀ z ∈ before, expired e z.2 = true

def ClearFrom (e : Tick) (ahead : List (UInt64 × Item δ)) (previous : Bool)
    (items : List (UInt64 × Item δ)) : Prop :=
  (previous = false → ahead ≠ [] → ∀ x ∈ items.head?, expired e x.2 = false) ∧
    ∀ before x y after, items = before ++ x :: y :: after → expired e x.2 = true →
      expired e y.2 = true → ahead = [] ∧ ∀ z ∈ before, expired e z.2 = true

theorem clearFrom_expired {x : UInt64 × Item δ} (hx : expired e x.2 = true)
    (h : previous = true ∨ ahead = []) :
    ClearFrom e ahead previous (x :: items) ↔ ClearFrom e ahead false items := by
  constructor
  · rintro ⟨-, hpairs⟩
    refine ⟨fun _ hne y hy => ?_, fun before y z after heq hy hz => ?_⟩
    · by_contra hexpired
      obtain ⟨after, rfl⟩ := head?_eq_some_iff.1 hy
      exact hne (hpairs [] x y after rfl hx (by simpa using hexpired)).1
    · obtain ⟨hnil, hbefore⟩ := hpairs (x :: before) y z after (by rw [heq]; rfl) hy hz
      exact ⟨hnil, (forall_mem_cons.1 hbefore).2⟩
  · rintro ⟨hhead, hpairs⟩
    refine ⟨fun hp hne => ?_, fun before y z after heq hy hz => ?_⟩
    · rcases h with rfl | rfl
      · cases hp
      · exact absurd rfl hne
    · rcases before with _ | ⟨w, before⟩
      · obtain ⟨rfl, rfl⟩ := cons.inj heq
        refine ⟨?_, by simp⟩
        by_contra hne
        rw [hhead rfl hne z rfl] at hz
        cases hz
      · obtain ⟨rfl, rfl⟩ := cons.inj heq
        obtain ⟨hnil, hbefore⟩ := hpairs before y z after rfl hy hz
        exact ⟨hnil, forall_mem_cons.2 ⟨hx, hbefore⟩⟩

theorem clearFrom_kept {x : UInt64 × Item δ} (hx : ¬ expired e x.2 = true) (x' : UInt64 × Item δ) :
    ClearFrom e ahead previous (x :: items) ↔ ClearFrom e (ahead ++ [x']) true items := by
  constructor
  · rintro ⟨-, hpairs⟩
    refine ⟨nofun, fun before y z after heq hy hz => ?_⟩
    have hall := (hpairs (x :: before) y z after (by rw [heq]; rfl) hy hz).2
    exact absurd (hall x mem_cons_self) hx
  · rintro ⟨-, hpairs⟩
    refine ⟨fun _ _ y hy => ?_, fun before y z after heq hy hz => ?_⟩
    · obtain rfl := Option.some.inj hy
      simpa using hx
    · rcases before with _ | ⟨w, before⟩
      · obtain ⟨rfl, -⟩ := cons.inj heq
        exact absurd hy hx
      · obtain ⟨-, rfl⟩ := cons.inj heq
        exact absurd (hpairs before y z after rfl hy hz).1 (by simp)

/-- **The loop keeps what it should exactly if the list is clear.** -/
theorem expireList_eq_iff (e : Tick) (ahead items : List (UInt64 × Item δ)) (previous : Bool) :
    (expireList e ahead previous items).1 = ahead ++ kept e items ↔
      ClearFrom e ahead previous items := by
  induction items generalizing ahead previous with
  | nil => simp [expireList, kept, ClearFrom]
  | cons x items ih =>
    rw [expireList, kept_cons]
    split_ifs with hx hprevious
    · rw [ih ahead false, clearFrom_expired hx (.inl hprevious)]
    · rcases ahead with _ | ⟨a, ahead⟩
      · rw [ih [] false, clearFrom_expired hx (.inr rfl)]
      · -- `ahead` is not linked any more
        refine ⟨fun heq => ?_, fun hclear => ?_⟩
        · have hlen := (expireList_sublist e [] items false).length_le
          have hlen' := congrArg length heq
          simp only [length_append, length_cons, length_nil] at hlen hlen'
          omega
        · rw [hclear.1 (by simpa using hprevious) (by simp) x rfl] at hx
          cases hx
    · rw [clearFrom_kept hx (x.1, mark e x.1 x.2), ← ih, append_assoc]
      rfl

theorem clearFrom_iff_clear : ClearFrom e [] false items ↔ Clear e items :=
  ⟨fun h before x y after heq hx hy => (h.2 before x y after heq hx hy).2,
    fun h => ⟨fun _ hne => absurd rfl hne,
      fun before x y after heq hx hy => ⟨rfl, h before x y after heq hx hy⟩⟩⟩

theorem keys_kept_sublist (e : Tick) (items : List (UInt64 × Item δ)) :
    ((kept e items).map Prod.fst).Sublist (items.map Prod.fst) := by
  rw [kept, map_map]
  exact Sublist.map Prod.fst filter_sublist

theorem find_kept {k : UInt64} (hnodup : (items.map Prod.fst).Nodup) : Items.find k (kept e items) =
      (Items.find k items).bind fun item =>
        if expired e item then none else some (mark e k item) := by
  induction items with
  | nil => rfl
  | cons x items ih =>
    rw [map_cons, nodup_cons] at hnodup
    rw [kept_cons]
    by_cases hk : x.1 = k
    · subst hk
      have hnone : Items.find x.1 (kept e items) = none :=
        Items.find_eq_none_iff.2 fun hmem => hnodup.1 ((keys_kept_sublist e items).subset hmem)
      by_cases hx : expired e x.2 = true <;> simp [Items.find, hx, hnone]
    · by_cases hx : expired e x.2 = true <;> simp [Items.find, hk, hx, ih hnodup.2]

end Lists

theorem nodup_expireList (e : Tick) {items : List (UInt64 × Item δ)}
    (h : (items.map Prod.fst).Nodup) : ((expireList e [] false items).1.map Prod.fst).Nodup :=
  h.sublist (((expireList_sublist e [] items false).map Prod.fst).trans (keys_kept_sublist e items))

def storeExpire (e : Tick) (store : Table δ) : Table δ × List δ :=
  (⟨fun i => (expireList e [] false (store.bucket i)).1,
    fun i => nodup_expireList e (store.nodup i)⟩,
    (finRange 257).flatMap fun i => (expireList e [] false (store.bucket i)).2)

def call (store : Table δ) : Op δ ⊕ Tick → Table δ
  | .inl op => (step store op).1
  | .inr e => (storeExpire e store).1

theorem placed_calls (calls : List (Op δ ⊕ Tick)) :
    (calls.foldl call (empty : Table δ)).Placed hashOfKey := by
  have hstep : ∀ (store : Table δ) c, store.Placed hashOfKey → (call store c).Placed hashOfKey := by
    rintro store (op | e) h
    · cases op with
      | save data sockid sockfd => exact HashTable.Placed.save hashOfKey h sockid _
      | get sockid => exact h
      | delete sockid => exact HashTable.Placed.delete hashOfKey h sockid
    · intro i x hx
      have hkey := ((expireList_sublist e [] _ false).map Prod.fst).subset (mem_map_of_mem hx)
      obtain ⟨y, hy, hxy⟩ := mem_map.1 ((keys_kept_sublist e _).subset hkey)
      rw [← hxy]
      exact h i y hy
  exact foldlRecOn calls call nofun fun store h c _ => hstep store c h

/-- **What expires is removed, and nothing else, exactly where no two entries in a row expire
behind one that is kept.** For every store that calls can lead to, every entry that expires is
released once; the rest is found as before exactly if all lists are clear. -/
theorem storeExpire_exact_iff (calls : List (Op δ ⊕ Tick)) (e : Tick) :
    let store := calls.foldl call (empty : Table δ)
    (storeExpire e store).2 = ((finRange 257).flatMap fun i =>
        ((store.bucket i).filter fun x => expired e x.2).map fun x => x.2.data) ∧
      ((∀ sockid, (storeExpire e store).1.get hashOfKey sockid =
          (store.get hashOfKey sockid).bind fun item =>
            if expired e item then none else some (mark e sockid item)) ↔
        ∀ i, Clear e (store.bucket i)) := by
  intro store
  have hplaced : store.Placed hashOfKey := placed_calls calls
  refine ⟨by simp only [storeExpire, expireList_released], fun h i => ?_, fun h sockid => ?_⟩
  · rw [← clearFrom_iff_clear, ← expireList_eq_iff, nil_append]
    -- every entry to keep is found, so none of them is missing in the list
    have hsub := expireList_sublist e [] (store.bucket i) false
    have hnodup : ((kept e (store.bucket i)).map Prod.fst).Nodup :=
      (store.nodup i).sublist (keys_kept_sublist e _)
    have hall : kept e (store.bucket i) ⊆ (expireList e [] false (store.bucket i)).1 := by
      intro x hx
      have hi : hashOfKey x.1 = i := by
        obtain ⟨y, hy, hxy⟩ :=
          mem_map.1 ((keys_kept_sublist e _).subset (mem_map_of_mem hx))
        rw [← hxy]
        exact hplaced i y hy
      have hget := h x.1
      rw [HashTable.get, HashTable.get, hi, ← find_kept (store.nodup i),
        (Items.find_eq_some_iff hnodup).2 hx] at hget
      exact (Items.find_eq_some_iff (nodup_expireList e (store.nodup i))).1 hget
    exact hsub.eq_of_length_le ((hnodup.of_map _).subperm hall).length_le
  · rw [HashTable.get, HashTable.get, ← find_kept (store.nodup _)]
    show Items.find sockid (expireList e [] false (store.bucket (hashOfKey sockid))).1 = _
    rw [(expireList_eq_iff e [] _ false).2 (clearFrom_iff_clear.2 (h _)), nil_append]

def onlyFirst (circBufCount : UInt64) (circBufWasEmptied : Bool) : Tick :=
  ⟨fun fd => if fd = 3 then ⟨1, true⟩ else ⟨0, false⟩, fun _ => none, 10000, circBufCount,
    circBufWasEmptied⟩

def twoClosed : Table ℕ :=
  [Sum.inl (.save 10 1 3), .inl (.save 20 258 4), .inl (.save 30 515 5),
    .inr (onlyFirst 7 false)].foldl call empty

/-- **The entry of a connection in use is lost**, and is not released. -/
theorem storeExpire_loses : storeGet twoClosed 1 = some 10 ∧
      (storeExpire (onlyFirst 8 true) twoClosed).2 = [20, 30] ∧
      storeGet (storeExpire (onlyFirst 8 true) twoClosed).1 1 = none := by
  decide +kernel

end AppView.Http.Store

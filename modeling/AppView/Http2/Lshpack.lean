import AppView.Framework.Readers

/-!
# The HPACK decoder of ls-hpack

`lshpack_dec_decode` takes one header field off the front of a header block, and changes its
table: a size update, or an entry for a field that is to be indexed.
-/

namespace AppView.Http2

open AppView.Framework List Option

abbrev Bytes := List UInt8

def octets (s : String) : Bytes := s.toList.map fun c => UInt8.ofNat c.toNat

structure Field where
  name : Bytes
  value : Bytes
  deriving DecidableEq, Repr

def Field.size (f : Field) : ℕ := 32 + f.name.length + f.value.length

def staticTable : List (String × String) :=
  [(":authority", ""), (":method", "GET"), (":method", "POST"), (":path", "/"),
   (":path", "/index.html"), (":scheme", "http"), (":scheme", "https"), (":status", "200"),
   (":status", "204"), (":status", "206"), (":status", "304"), (":status", "400"),
   (":status", "404"), (":status", "500"), ("accept-charset", ""),
   ("accept-encoding", "gzip, deflate"), ("accept-language", ""), ("accept-ranges", ""),
   ("accept", ""), ("access-control-allow-origin", ""), ("age", ""), ("allow", ""),
   ("authorization", ""), ("cache-control", ""), ("content-disposition", ""),
   ("content-encoding", ""), ("content-language", ""), ("content-length", ""),
   ("content-location", ""), ("content-range", ""), ("content-type", ""), ("cookie", ""),
   ("date", ""), ("etag", ""), ("expect", ""), ("expires", ""), ("from", ""), ("host", ""),
   ("if-match", ""), ("if-modified-since", ""), ("if-none-match", ""), ("if-range", ""),
   ("if-unmodified-since", ""), ("last-modified", ""), ("link", ""), ("location", ""),
   ("max-forwards", ""), ("proxy-authenticate", ""), ("proxy-authorization", ""),
   ("range", ""), ("referer", ""), ("refresh", ""), ("retry-after", ""), ("server", ""),
   ("set-cookie", ""), ("strict-transport-security", ""), ("transfer-encoding", ""),
   ("user-agent", ""), ("vary", ""), ("via", ""), ("www-authenticate", "")]

/-! ## The table -/

structure Dec where
  dynTable : List Field
  curCapacity : ℕ
  curMaxCapacity : ℕ
  maxCapacity : ℕ
  deriving DecidableEq, Repr

def Dec.init : Dec := ⟨[], 0, 4096, 4096⟩

def removeOverflowEntries (curMaxCapacity : ℕ) : List Field → ℕ → List Field × ℕ
  | [], curCapacity => ([], curCapacity)
  | entry :: entries, curCapacity =>
    if curMaxCapacity < curCapacity then
      removeOverflowEntries curMaxCapacity entries (curCapacity - entry.size)
    else (entry :: entries, curCapacity)

def Dec.removeOverflow (d : Dec) : Dec :=
  let r := removeOverflowEntries d.curMaxCapacity d.dynTable d.curCapacity
  { d with dynTable := r.1, curCapacity := r.2 }

def Dec.updateMaxCapacity (d : Dec) (newCapacity : ℕ) : Dec :=
  { d with curMaxCapacity := newCapacity }.removeOverflow

def Dec.setMaxCapacity (d : Dec) (maxCapacity : ℕ) : Dec :=
  { d with maxCapacity }.updateMaxCapacity maxCapacity

/-- The newest entry is the last; the oldest ones go when the table is full. -/
def Dec.pushEntry (d : Dec) (f : Field) : Dec :=
  { d with dynTable := d.dynTable ++ [f], curCapacity := d.curCapacity + f.size }.removeOverflow

/-- The static table up to index 61, then the dynamic one from its newest entry on. -/
def Dec.entry (d : Dec) (index : ℕ) : Option Field :=
  if index = 0 then none
  else if index ≤ 61 then
    staticTable[index - 1]?.map fun e => ⟨octets e.1, octets e.2⟩
  else if d.dynTable.length < index - 61 then none
  else d.dynTable[d.dynTable.length - (index - 61)]?

/-! ## Integers and strings -/

def decIntMore (val m : ℕ) : Bytes → Option (ℕ × Bytes)
  | [] => none
  | b :: bs =>
    let val' := (val + (b.toNat % 128) <<< m) % 2 ^ 32
    if b &&& 0x80 ≠ 0 then decIntMore val' (m + 7) bs
    else if m + 7 ≤ 28 ∨
        (m + 7 = 35 ∧ b ≤ 0xf ∧ (val' + 2 ^ 32 - b.toNat <<< 28) % 2 ^ 32 < val') then
      some (val', bs)
    else none

/-- An integer with a prefix of some bits; one that does not fit 32 bits is refused. -/
def decInt (prefixBits : ℕ) : Bytes → Option (ℕ × Bytes)
  | [] => none
  | b :: bs =>
    let prefixMax := 2 ^ prefixBits - 1
    let val := b.toNat % 2 ^ prefixBits
    if val < prefixMax then some (val, bs) else decIntMore val 0 bs

/-- A string, Huffman coded or not. At the end of the data it is empty. -/
def decStr (huff : Bytes → Option Bytes) : Bytes → Option (Bytes × Bytes)
  | [] => some ([], [])
  | b :: bs =>
    match decInt 7 (b :: bs) with
    | none => none
    | some (len, rest) =>
      if rest.length < len then none
      else
        (if b &&& 0x80 ≠ 0 then huff (rest.take len) else some (rest.take len)).map
          fun str => (str, rest.drop len)

/-! ## Representations -/

inductive Rep where
  | indexed (index : ℕ)
  /-- A literal with the name at an index, or with a name of its own where that is 0; `add`
  is whether the field goes to the table. -/
  | literal (add : Bool) (index : ℕ) (name value : Bytes)
  deriving DecidableEq, Repr

def readLiteral (huff : Bytes → Option Bytes) (add : Bool) (index : ℕ) (s : Bytes) :
    Option (Rep × Bytes) :=
  if index = 0 then
    (decStr huff s).bind fun n => (decStr huff n.2).map fun v => (.literal add 0 n.1 v.1, v.2)
  else (decStr huff s).map fun v => (.literal add index [] v.1, v.2)

def readRep (huff : Bytes → Option Bytes) : Bytes → Option (Rep × Bytes)
  | [] => none
  | b :: bs =>
    if b &&& 0x80 ≠ 0 then
      (decInt 7 (b :: bs)).bind fun i => if i.1 = 0 then none else some (.indexed i.1, i.2)
    else if 0x40 < b then (decInt 6 (b :: bs)).bind fun i => readLiteral huff true i.1 i.2
    else if b = 0x40 then readLiteral huff true 0 bs
    else if b = 0x10 then readLiteral huff false 0 bs
    else if b = 0x00 then readLiteral huff false 0 bs
    else (decInt 4 (b :: bs)).bind fun i => readLiteral huff false i.1 i.2

def outSize : ℕ := 2048

def Fits (f : Field) : Prop := f.name.length + 2 + (f.value.length + 2) ≤ outSize

instance (f : Field) : Decidable (Fits f) := inferInstanceAs (Decidable (_ ≤ _))

def Dec.literalName (d : Dec) (index : ℕ) (name : Bytes) : Option Bytes :=
  if index = 0 then some name else (d.entry index).map Field.name

def Dec.apply (d : Dec) : Rep → Option (Field × Dec)
  | .indexed index =>
    (d.entry index).bind fun f => if Fits f then some (f, d) else none
  | .literal add index name value =>
    (d.literalName index name).bind fun n =>
      if Fits ⟨n, value⟩ then some (⟨n, value⟩, if add then d.pushEntry ⟨n, value⟩ else d)
      else none

/-! ## Reading takes from the front -/

variable {s r : Bytes} {c : UInt8} {d d' : Dec}

theorem decIntMore_rest {val m v : ℕ} (h : decIntMore val m s = some (v, r)) :
    ∃ a, a ≠ [] ∧ s = a ++ r := by
  induction s generalizing val m with
  | nil => simp [decIntMore] at h
  | cons b bs ih =>
    simp only [decIntMore] at h
    split_ifs at h with hmore hlast
    · obtain ⟨a, -, rfl⟩ := ih h
      exact ⟨b :: a, by simp, rfl⟩
    · obtain ⟨-, rfl⟩ : _ ∧ bs = r := by simpa using h
      exact ⟨[b], by simp, rfl⟩

theorem decInt_rest {k v : ℕ} (h : decInt k s = some (v, r)) : ∃ a, a ≠ [] ∧ s = a ++ r := by
  cases s with
  | nil => simp [decInt] at h
  | cons b bs =>
    simp only [decInt] at h
    split_ifs at h
    · obtain ⟨-, rfl⟩ : _ ∧ bs = r := by simpa using h
      exact ⟨[b], by simp, rfl⟩
    · obtain ⟨a, -, rfl⟩ := decIntMore_rest h
      exact ⟨b :: a, by simp, rfl⟩

theorem length_lt_of_rest (h : ∃ a, a ≠ [] ∧ s = a ++ r) : r.length < s.length := by
  obtain ⟨a, ha, rfl⟩ := h
  simpa using length_pos_iff.2 ha

theorem decIntMore_strict (val m : ℕ) : Reader.Strict (decIntMore val m) := fun _ _ _ h =>
  length_lt_of_rest (decIntMore_rest h)

theorem decIntMore_local (val m : ℕ) : Reader.Local (decIntMore val m) where
  rest h := by
    obtain ⟨a, -, rfl⟩ := decIntMore_rest h
    exact suffix_append a _
  cut := by
    intro s b v r h
    induction s generalizing val m with
    | nil => exact absurd h (decIntMore_strict val m).ne_append
    | cons c s ih =>
      simp only [cons_append, decIntMore] at h ⊢
      split_ifs at h ⊢ with hmore hlast
      · exact ih _ _ h
      · obtain ⟨rfl, hr⟩ := Prod.mk.inj (some.inj h)
        rw [append_cancel_right hr]

theorem decInt_strict (k : ℕ) : Reader.Strict (decInt k) := fun _ _ _ h =>
  length_lt_of_rest (decInt_rest h)

theorem decInt_local (k : ℕ) : Reader.Local (decInt k) where
  rest h := by
    obtain ⟨a, -, rfl⟩ := decInt_rest h
    exact suffix_append a _
  cut := by
    intro s b v r h
    cases s with
    | nil => exact absurd h (decInt_strict k).ne_append
    | cons c s =>
      simp only [cons_append, decInt] at h ⊢
      split_ifs at h ⊢
      · obtain ⟨rfl, hr⟩ := Prod.mk.inj (some.inj h)
        rw [append_cancel_right hr]
      · exact (decIntMore_local _ _).cut h

variable {huff : Bytes → Option Bytes}

theorem decStr_cons_eq_some {x : Bytes} (h : decStr huff (c :: s) = some (x, r)) :
    ∃ len rest, decInt 7 (c :: s) = some (len, rest) ∧ len ≤ rest.length ∧
      (if c &&& 0x80 ≠ 0 then huff (rest.take len) else some (rest.take len)) = some x ∧
      rest.drop len = r := by
  simp only [decStr] at h
  cases hint : decInt 7 (c :: s) with
  | none => simp [hint] at h
  | some i =>
    obtain ⟨len, rest⟩ := i
    simp only [hint] at h
    split_ifs at h with hshort hhuff
    all_goals
      obtain ⟨y, hy, hyr⟩ := map_eq_some_iff.1 h
      cases hyr
      exact ⟨len, rest, rfl, by omega, by simpa [hhuff] using hy, rfl⟩

theorem decStr_rest {x : Bytes} (h : decStr huff s = some (x, r)) : r <:+ s := by
  cases s with
  | nil =>
    obtain ⟨-, rfl⟩ : _ ∧ _ := by simpa [decStr] using h
    exact suffix_rfl
  | cons c s =>
    obtain ⟨len, rest, hint, -, -, rfl⟩ := decStr_cons_eq_some h
    exact (drop_suffix len rest).trans ((decInt_local 7).rest hint)

theorem decStr_local : Reader.Local (decStr huff) where
  rest := decStr_rest
  cut := by
    intro s b x r h
    cases s with
    | nil =>
      cases b with
      | nil =>
        rw [append_nil, append_nil] at h
        exact h
      | cons c b =>
        obtain ⟨len, rest, hint, -, -, hr⟩ := decStr_cons_eq_some h
        have hlt := decInt_strict 7 hint
        have hle := congrArg length hr
        simp only [length_drop, length_append] at hle
        omega
    | cons c s =>
      obtain ⟨len, rest, hint, hlen, hx, hr⟩ := decStr_cons_eq_some h
      -- the length stands before the string, so it is read without `b` too
      have hrest : rest = (rest.take len ++ r) ++ b := by
        rw [append_assoc, ← hr, take_append_drop]
      have hn : (rest.take len).length = len := length_take_of_le hlen
      rw [hrest] at hint
      have hcut := (decInt_local 7).cut (s := c :: s) hint
      simp only [decStr, hcut, length_append, hn]
      rw [if_neg (by omega), take_left' hn, drop_left' hn, hx]
      rfl

theorem readLiteral_local (add : Bool) (index : ℕ) : Reader.Local (readLiteral huff add index) := by
  unfold readLiteral
  split_ifs
  · exact decStr_local.bind fun n => decStr_local.map fun v => Rep.literal add 0 n v
  · exact decStr_local.map fun v => Rep.literal add index [] v

theorem readRep_strict : Reader.Strict (readRep huff) := by
  intro s rep r h
  cases s with
  | nil => simp [readRep] at h
  | cons c s =>
    -- an index is read before the strings, or the first byte is
    have hindex : ∀ {k : ℕ} {add : Bool}, (decInt k (c :: s)).bind
        (fun i => readLiteral huff add i.1 i.2) = some (rep, r) → r.length < (c :: s).length := by
      intro k add h
      obtain ⟨⟨i, t⟩, hi, ht⟩ := bind_eq_some_iff.1 h
      exact Nat.lt_of_le_of_lt ((readLiteral_local add i).rest ht).length_le (decInt_strict k hi)
    have hname : ∀ {add : Bool}, readLiteral huff add 0 s = some (rep, r) →
        r.length < (c :: s).length := fun h =>
      Nat.lt_succ_of_le ((readLiteral_local _ 0).rest h).length_le
    simp only [readRep] at h
    split_ifs at h
    · obtain ⟨⟨i, t⟩, hi, ht⟩ := bind_eq_some_iff.1 h
      simp only [ite_none_left_eq_some, some.injEq, Prod.mk.injEq] at ht
      obtain ⟨-, -, rfl⟩ := ht
      exact decInt_strict 7 hi
    · exact hindex h
    · exact hname h
    · exact hname h
    · exact hname h
    · exact hindex h

theorem readIndexed_local : Reader.Local fun s => (decInt 7 s).bind fun i =>
    if i.1 = 0 then none else some (Rep.indexed i.1, i.2) :=
  (decInt_local 7).bind (f := fun i s => if i = 0 then none else some (Rep.indexed i, s))
    fun i => ⟨by
      intro s x r h
      obtain ⟨-, -, rfl⟩ : _ ∧ _ ∧ s = r := by simpa using h
      exact suffix_rfl, by
      intro s b x r h
      simpa using h⟩

theorem readRep_local : Reader.Local (readRep huff) := by
  have hindex : ∀ k add, Reader.Local fun s => (decInt k s).bind fun i =>
      readLiteral huff add i.1 i.2 := fun k add =>
    (decInt_local k).bind fun i => readLiteral_local add i
  constructor
  · intro s rep r h
    cases s with
    | nil => simp [readRep] at h
    | cons c s =>
      simp only [readRep] at h
      split_ifs at h
      · exact readIndexed_local.rest h
      · exact (hindex 6 true).rest h
      · exact ((readLiteral_local true 0).rest h).trans (suffix_cons c s)
      · exact ((readLiteral_local false 0).rest h).trans (suffix_cons c s)
      · exact ((readLiteral_local false 0).rest h).trans (suffix_cons c s)
      · exact (hindex 4 false).rest h
  · intro s b rep r h
    cases s with
    | nil => exact absurd h readRep_strict.ne_append
    | cons c s =>
      simp only [cons_append, readRep] at h ⊢
      split_ifs at h ⊢
      · exact readIndexed_local.cut (s := c :: s) h
      · exact (hindex 6 true).cut (s := c :: s) h
      · exact (readLiteral_local true 0).cut h
      · exact (readLiteral_local false 0).cut h
      · exact (readLiteral_local false 0).cut h
      · exact (hindex 4 false).cut (s := c :: s) h

/-- Size updates in front of a field; a block that ends with one has no field. -/
def readUpdates (d : Dec) (s : Bytes) : Dec × Option Bytes :=
  match s with
  | [] => (d, none)
  | b :: bs =>
    if b &&& 0xe0 = 0x20 then
      match _h : decInt 5 (b :: bs) with
      | none => (d, none)
      | some (newCapacity, rest) =>
        if d.maxCapacity < newCapacity then (d, none)
        else readUpdates (d.updateMaxCapacity newCapacity) rest
    else (d, some (b :: bs))
termination_by s.length
decreasing_by exact length_lt_of_rest (decInt_rest _h)

/-- One header field, and the table after it. -/
def decode (huff : Bytes → Option Bytes) (d : Dec) (src : Bytes) : Dec × Option (Field × Bytes) :=
  match readUpdates d src with
  | (d', none) => (d', none)
  | (d', some s) =>
    match readRep huff s with
    | none => (d', none)
    | some (rep, rest) =>
      match d'.apply rep with
      | none => (d', none)
      | some (f, d'') => (d'', some (f, rest))

/-! ## A block that is cut -/

theorem readUpdates_of_update {t : Bytes} {n : ℕ} (hc : c &&& 0xe0 = 0x20)
    (hint : decInt 5 (c :: s) = some (n, t)) (hmax : n ≤ d.maxCapacity) :
    readUpdates d (c :: s) = readUpdates (d.updateMaxCapacity n) t := by
  rw [readUpdates, if_pos hc]
  split
  · rename_i hnone
    rw [hint] at hnone
    cases hnone
  · rename_i hsome
    rw [hint] at hsome
    cases hsome
    exact if_neg (Nat.not_lt.2 hmax)

theorem readUpdates_of_field (hc : ¬ c &&& 0xe0 = 0x20) :
    readUpdates d (c :: s) = (d, some (c :: s)) := by
  rw [readUpdates, if_neg hc]

theorem readUpdates_rest (h : readUpdates d s = (d', some r)) : r <:+ s := by
  fun_induction readUpdates d s with
  | case1 | case2 | case3 => cases h
  | case4 d c s hc n t hint hmax ih => exact (ih h).trans ((decInt_local 5).rest hint)
  | case5 d c s hc =>
    cases h
    exact suffix_rfl

theorem decode_eq_some {f : Field} : decode huff d s = (d', some (f, r)) ↔
      ∃ d₁ t rep, readUpdates d s = (d₁, some t) ∧ readRep huff t = some (rep, r) ∧
        d₁.apply rep = some (f, d') := by
  unfold decode
  constructor
  · intro h
    split at h
    · cases h
    · rename_i d₁ t hup
      split at h
      · cases h
      · rename_i rep rest hrep
        split at h
        · cases h
        · rename_i hap
          cases h
          exact ⟨d₁, t, rep, hup, hrep, hap⟩
  · rintro ⟨d₁, t, rep, hup, hrep, hap⟩
    simp [hup, hrep, hap]

theorem decode_lt {f : Field} (h : decode huff d s = (d', some (f, r))) : r.length < s.length := by
  obtain ⟨d₁, t, rep, hup, hrep, -⟩ := decode_eq_some.1 h
  exact Nat.lt_of_lt_of_le (readRep_strict hrep) (readUpdates_rest hup).length_le

end AppView.Http2

import AppView.Framework.IntObject

/-!
# What the two JSON libraries are used for

The library reads and writes the metadata of a message with cJSON, the command line tool with
`encoding/json`. Both are parameters here: a record of the operations that are called.
-/

namespace AppView.Ipc

open AppView.Framework List

abbrev Bytes := List UInt8

def ascii (cs : List Char) : Bytes := cs.map fun c => UInt8.ofNat c.toNat

def ofAscii (bs : Bytes) : List Char := bs.map fun b => Char.ofNat b.toNat

def cString (bs : Bytes) : Bytes := bs.takeWhile (· ≠ 0)

abbrev Fields := List (List Char × ℤ)

def IsInt (z : ℤ) : Prop := -2 ^ 31 ≤ z ∧ z < 2 ^ 31

instance (z : ℤ) : Decidable (IsInt z) := inferInstanceAs (Decidable (_ ∧ _))

def Small (fs : Fields) : Prop := ∀ f ∈ fs, PlainName f.1 ∧ IsInt f.2

/-! ## cJSON -/

structure CJson (Item : Type) where
  createObject : Item
  addNumber : Item → List Char → ℤ → Item
  printUnformatted : Item → Bytes
  parse : Bytes → Option Item
  isObject : Item → Bool
  isNumber : Item → Bool
  getObjectItemCaseSensitive : Item → List Char → Option Item
  valueint : Item → ℤ

variable {Item : Type}

def CJson.ofFields (J : CJson Item) (fs : Fields) : Item :=
  fs.foldl (fun item f => J.addNumber item f.1 f.2) J.createObject

structure CJson.Holds (J : CJson Item) (item : Item) (fs : Fields) : Prop where
  isObject : J.isObject item = true
  get : ∀ name z, fs.lookup name = some z →
    ∃ n, J.getObjectItemCaseSensitive item name = some n ∧ J.isNumber n = true ∧
      J.valueint n = z

structure CJson.Compact (J : CJson Item) : Prop where
  print : ∀ fs, Small fs → J.printUnformatted (J.ofFields fs) = ascii (compact fs)
  parse : ∀ fs, Small fs → ∃ item, J.parse (ascii (compact fs)) = some item ∧ J.Holds item fs ∧
    J.printUnformatted item = ascii (compact fs)

/-! ## `encoding/json` -/

structure GoJson where
  marshal : Fields → Bytes
  unmarshal : Bytes → Option (List Char → Option ℤ)

structure GoJson.Compact (G : GoJson) : Prop where
  marshal : ∀ fs, Small fs → G.marshal fs = ascii (compact fs)
  unmarshal : ∀ fs, Small fs →
    ∃ f, G.unmarshal (ascii (compact fs)) = some f ∧ ∀ name, f name = fs.lookup name

/-! ## The compact form as bytes -/

theorem length_ascii (cs : List Char) : (ascii cs).length = cs.length := length_map _

variable {cs : List Char} {fs : Fields}

theorem ofAscii_ascii (h : ∀ c ∈ cs, c.toNat < 128) : ofAscii (ascii cs) = cs := by
  rw [ofAscii, ascii, map_map]
  refine (map_congr_left fun c hc => ?_).trans (map_id cs)
  have hlt : c.toNat < 2 ^ 8 := (h c hc).trans (by decide)
  simp [Function.comp, UInt8.toNat_ofNat_of_lt' hlt]

theorem zero_not_mem_ascii (h : ∀ c ∈ cs, 0 < c.toNat ∧ c.toNat < 128) :
    (0 : UInt8) ∉ ascii cs := by
  rintro h0
  obtain ⟨c, hc, heq⟩ := mem_map.1 h0
  obtain ⟨hpos, hlt⟩ := h c hc
  have hval := congrArg UInt8.toNat heq
  rw [UInt8.toNat_ofNat_of_lt' (hlt.trans (by decide))] at hval
  exact absurd hval hpos.ne'

theorem zero_not_mem_compact (hfs : Small fs) : (0 : UInt8) ∉ ascii (compact fs) :=
  zero_not_mem_ascii fun _ hc => toNat_of_mem_compact (fun f hf => (hfs f hf).1) hc

theorem cString_append {bs : Bytes} (h : (0 : UInt8) ∉ bs) (rest : Bytes) :
    cString (bs ++ 0 :: rest) = bs := by
  have hpos : ∀ b ∈ bs, decide (b ≠ 0) = true := by
    intro b hb
    rw [decide_eq_true_eq]
    rintro rfl
    exact h hb
  rw [cString, takeWhile_append_of_pos hpos]
  simp

/-! ## Libraries that do just this -/

inductive PlainItem where
  | number (z : ℤ)
  | object (fs : Fields)

def plainCJson : CJson PlainItem where
  createObject := .object []
  addNumber item name z :=
    match item with
    | .object fs => .object (fs ++ [(name, z)])
    | .number n => .number n
  printUnformatted
    | .object fs => ascii (compact fs)
    | .number z => ascii (decimal z)
  parse bs := (readCompact (ofAscii bs)).map .object
  isObject
    | .object _ => true
    | .number _ => false
  isNumber
    | .object _ => false
    | .number _ => true
  getObjectItemCaseSensitive
    | .object fs, name => (fs.lookup name).map .number
    | .number _, _ => none
  valueint
    | .object _ => 0
    | .number z => z

def plainGoJson : GoJson where
  marshal fs := ascii (compact fs)
  unmarshal bs := (readCompact (ofAscii bs)).map fun fs name => fs.lookup name

theorem readCompact_ofAscii (hfs : Small fs) :
    readCompact (ofAscii (ascii (compact fs))) = some fs := by
  have hplain : ∀ f ∈ fs, PlainName f.1 := fun f hf => (hfs f hf).1
  rw [ofAscii_ascii fun c hc => (toNat_of_mem_compact hplain hc).2, readCompact_compact hplain]

theorem plainCJson_ofFields (fs : Fields) : plainCJson.ofFields fs = .object fs := by
  have hfold : ∀ gs : Fields, fs.foldl (fun item f => plainCJson.addNumber item f.1 f.2)
      (.object gs) = .object (gs ++ fs) := by
    induction fs with
    | nil => simp
    | cons f fs ih =>
      intro gs
      rw [foldl_cons, show plainCJson.addNumber (.object gs) f.1 f.2 = .object (gs ++ [f])
        from rfl, ih, append_assoc]
      rfl
  exact hfold []

theorem plainCJson_compact : plainCJson.Compact where
  print fs _ := by
    rw [plainCJson_ofFields]
    rfl
  parse fs hfs := by
    refine ⟨.object fs, ?_, ⟨rfl, ?_⟩, rfl⟩
    · simp [plainCJson, readCompact_ofAscii hfs]
    · intro name z hz
      exact ⟨.number z, by simp [plainCJson, hz], rfl, rfl⟩

theorem plainGoJson_compact : plainGoJson.Compact where
  marshal _ _ := rfl
  unmarshal fs hfs := ⟨fun name => fs.lookup name,
    by simp [plainGoJson, readCompact_ofAscii hfs], fun _ => rfl⟩

end AppView.Ipc

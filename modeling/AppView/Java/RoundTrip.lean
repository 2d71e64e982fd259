import AppView.Java.Bci

/-!
# A class that is read and written

The pointers that `javaReadClass` collects stand at the entries of the class file
(`Represents`), and whatever stands so is written as the bytes of the class file. Together
**a class file that is read and written is the same** (`java_round_trip`).
-/

namespace AppView.Java

open Framework List Option Constant

/-! ## Numbers -/

variable (c : Constant) (x : UInt16) (rest : Mem)

@[simp] theorem next16_be16 : next16 (be16 x ++ rest) = some (x, rest) := by
  have hx : x.toNat < 256 ^ 2 := x.toNat_lt
  rw [next16, be16, nextNumber_toBytes hx, map_some, UInt16.ofNat_toNat]

theorem next16_bind {α : Type} (k : UInt16 × Mem → Option α) :
    (next16 (be16 x ++ rest) >>= k) = k (x, rest) := by
  rw [next16_be16]
  rfl

@[simp] theorem next32_be32 (x : UInt32) (rest : Mem) :
    next32 (be32 x ++ rest) = some (x, rest) := by
  have hx : x.toNat < 256 ^ 4 := x.toNat_lt
  rw [next32, be32, nextNumber_toBytes hx, map_some, UInt32.ofNat_toNat]

@[simp] theorem drop_be16 : (be16 x ++ rest).drop 2 = rest :=
  drop_left' (length_be16 x)

theorem memcpy_append (bytes rest : Mem) : memcpy bytes.length (bytes ++ rest) = some bytes := by
  rw [memcpy, if_pos (by simp), take_left' rfl]

/-! ## Sizes -/

def Sized {α : Type} (length : Mem → Option UInt32) (enc : α → Mem) (a : α) : Prop :=
  ∀ rest, ∃ size, length (enc a ++ rest) = some size ∧ size.toNat = (enc a).length

theorem cpTagSize_code (tag : Tag) :
    tag.code ≠ 1 ∧ cpTagSize[tag.code.toNat]? = some (tag.dataSize + 1) ∧
      tag.dataSize + 1 < 2 ^ 16 := by
  cases tag <;> decide

theorem javaGetTagLength_encode {c : Constant} (hc : c.WellFormed) (rest : Mem) :
    ∃ size, javaGetTagLength (c.encode ++ rest) = some size ∧ size.toNat = c.encode.length := by
  cases c with
  | utf8 bytes =>
    have hbytes : bytes.length ≤ 65532 := hc
    refine ⟨UInt16.ofNat bytes.length + 3, ?_, ?_⟩
    · simp [javaGetTagLength, encode]
    · have hlen : (UInt16.ofNat bytes.length).toNat = bytes.length :=
        UInt16.toNat_ofNat_of_lt' (by simp [UInt16.size]; omega)
      rw [UInt16.toNat_add, hlen, Nat.mod_eq_of_lt (by simp; omega)]
      simp [encode]
      omega
  | fixed tag data =>
    have hdata : data.length = tag.dataSize := hc
    obtain ⟨hne, hsize, hlt⟩ := cpTagSize_code tag
    refine ⟨UInt16.ofNat (tag.dataSize + 1), ?_, ?_⟩
    · simp [javaGetTagLength, encode, hne, hsize]
    · rw [UInt16.toNat_ofNat_of_lt' hlt, encode, length_cons, hdata]

theorem wideTag_encode : wideTag (c.encode ++ rest) = c.wide := by
  cases c with
  | utf8 bytes => rfl
  | fixed tag data => cases tag <;> rfl

theorem Attribute.length_encode (a : Attribute) : a.encode.length = a.info.length + 6 := by
  simp [Attribute.encode]
  omega

theorem sized_attribute {a : Attribute} (ha : a.encode.length < 2 ^ 32) :
    Sized attributeLength Attribute.encode a := by
  intro rest
  rw [a.length_encode] at ha ⊢
  have hinfo : (UInt32.ofNat a.info.length).toNat = a.info.length :=
    UInt32.toNat_ofNat_of_lt' (Nat.lt_of_le_of_lt (Nat.le_add_right _ _) ha)
  refine ⟨UInt32.ofNat a.info.length + 6, ?_, ?_⟩
  · simp [attributeLength, Attribute.encode]
  · rw [UInt32.toNat_add, hinfo]
    exact Nat.mod_eq_of_lt ha

theorem skipAttributes_encode (as : List Attribute)
    (has : (as.flatMap Attribute.encode).length < 2 ^ 32) (rest : Mem) :
    skipAttributes as.length (as.flatMap Attribute.encode ++ rest) =
      some (as.flatMap Attribute.encode).length := by
  induction as with
  | nil => rfl
  | cons a as ih =>
    rw [flatMap_cons, length_append] at has
    obtain ⟨size, hsize, hlen⟩ := sized_attribute (a := a) (by omega)
      (as.flatMap Attribute.encode ++ rest)
    rw [flatMap_cons, append_assoc, length_cons, skipAttributes, hsize, length_append]
    simp [hlen, ih (by omega)]

theorem sized_member {m : Member} (hm : m.WellFormed) (hlen : m.encode.length < 2 ^ 32) :
    Sized javaGetMethodLength Member.encode m := by
  have hsplit : m.encode = be16 m.accessFlags ++ (be16 m.nameIndex ++ (be16 m.descriptorIndex ++
      (be16 (UInt16.ofNat m.attributes.length) ++ m.attributes.flatMap Attribute.encode))) := by
    simp [Member.encode, encodeTable]
  have hcount : m.encode.length = 8 + (m.attributes.flatMap Attribute.encode).length := by
    rw [hsplit]
    simp only [length_append, length_be16]
    omega
  have hskip := skipAttributes_encode m.attributes (by omega)
  generalize hbytes : m.attributes.flatMap Attribute.encode = bytes at *
  intro rest
  have hdrop : (m.encode ++ rest).drop 6 =
      be16 (UInt16.ofNat m.attributes.length) ++ (bytes ++ rest) := by
    have h6 : (6 : ℕ) = 2 + (2 + 2) := rfl
    rw [hsplit, h6, ← drop_drop, ← drop_drop]
    simp
  have hattributes : (UInt16.ofNat m.attributes.length).toNat = m.attributes.length :=
    UInt16.toNat_ofNat_of_lt' hm
  refine ⟨UInt32.ofNat (2 + bytes.length) + 6, ?_, ?_⟩
  · simp [javaGetMethodLength, hdrop, getAttributesLength, hattributes, hskip]
  · rw [UInt32.toNat_add, UInt32.toNat_ofNat_of_lt' (show 2 + bytes.length < 2 ^ 32 by omega),
      hcount]
    exact (Nat.mod_eq_of_lt (show 2 + bytes.length + 6 < 2 ^ 32 by omega)).trans (by omega)

/-! ## Tables of pointers -/

def Points {α : Type} (enc : α → Mem) (a : α) (entry : Option Mem) : Prop :=
  ∃ rest, entry = some (enc a ++ rest)

def PlacePoints : Option Constant → Option Mem → Prop
  | none, _ => True
  | some c, entry => Points encode c entry

def Holds {α : Type} (R : α → Option Mem → Prop) (items : List α) (table : List (Option Mem)) :
    Prop :=
  ∃ entries more, table = entries ++ more ∧ List.Forall₂ R items entries

section Tables

variable {α : Type} {length : Mem → Option UInt32} {enc : α → Mem} {items : List α}

theorem readTable_encode (h : ∀ a ∈ items, Sized length enc a) (rest : Mem) :
    ∃ entries, readTable length items.length (items.flatMap enc ++ rest) =
        some (entries, (items.flatMap enc).length) ∧
      Forall₂ (Points enc) items entries := by
  induction items with
  | nil => exact ⟨[], rfl, Forall₂.nil⟩
  | cons a items ih =>
    rw [forall_mem_cons] at h
    obtain ⟨entries, hread, hentries⟩ := ih h.2
    obtain ⟨size, hsize, hlen⟩ := h.1 (items.flatMap enc ++ rest)
    refine ⟨some (enc a ++ (items.flatMap enc ++ rest)) :: entries, ?_,
      Forall₂.cons ⟨_, rfl⟩ hentries⟩
    rw [flatMap_cons, append_assoc, length_cons, readTable, hsize]
    simp [hlen, hread]

theorem length_encodeTable (items : List α) :
    (encodeTable enc items).length = 2 + (items.flatMap enc).length := by
  rw [encodeTable, length_append, length_be16]

theorem readCounted_encode (hcount : items.length < 2 ^ 16)
    (h : ∀ a ∈ items, Sized length enc a) (rest : Mem) :
    ∃ entries, readCounted length (encodeTable enc items ++ rest) =
        some (UInt16.ofNat items.length, entries, (encodeTable enc items).length) ∧
      Forall₂ (Points enc) items entries := by
  obtain ⟨entries, hread, hentries⟩ := readTable_encode h rest
  have hlen : (UInt16.ofNat items.length).toNat = items.length := UInt16.toNat_ofNat_of_lt' hcount
  refine ⟨entries, ?_, hentries⟩
  rw [length_encodeTable, encodeTable, append_assoc, readCounted, next16_be16]
  simp [hlen, hread]

theorem writeEntry_points {entry : Option Mem} {a : α} {length : Mem → Option ℕ}
    (hsize : ∀ rest, length (enc a ++ rest) = some (enc a).length) (h : Points enc a entry) :
    writeEntry length entry = some (enc a) := by
  obtain ⟨rest, rfl⟩ := h
  simp [writeEntry, hsize, memcpy_append]

theorem writeTable_points {entries : List (Option Mem)}
    (hsized : ∀ a ∈ items, Sized length enc a) (h : Forall₂ (Points enc) items entries)
    (more : List (Option Mem)) :
    writeTable length items.length (entries ++ more) = some (items.flatMap enc) := by
  induction h with
  | nil => rfl
  | @cons a entry items entries ha _ ih =>
    rw [forall_mem_cons] at hsized
    have hsize : ∀ rest, (length (enc a ++ rest)).map UInt32.toNat = some (enc a).length := by
      intro rest
      obtain ⟨size, hsize, hlen⟩ := hsized.1 rest
      rw [hsize, map_some, hlen]
    rw [cons_append, length_cons, writeTable, writeEntry_points hsize ha, ih hsized.2, flatMap_cons]
    rfl

end Tables

/-! ## The constant pool -/

theorem places_cons (cs : List Constant) :
    places (c :: cs) = some c :: ((if c.wide then [none] else []) ++ places cs) := by
  rw [places, flatMap_cons]
  split_ifs <;> rfl

variable {off addr bytes : Mem} {size : UInt16} {cs : List Constant}

theorem readConstants_narrow (hsize : javaGetTagLength off = some size)
    (hwide : wideTag off = false) (n : ℕ) :
    readConstants (n + 1) off = (readConstants n (off.drop size.toNat)).map fun r =>
      (some off :: r.1, size.toNat + r.2) := by
  cases n with
  | zero => simp [readConstants, hsize]
  | succ n =>
    rw [readConstants, hsize]
    rcases h : readConstants (n + 1) (off.drop size.toNat) with _ | r <;> simp [hwide, h]

theorem readConstants_wide (hsize : javaGetTagLength off = some size)
    (hwide : wideTag off = true) (n : ℕ) :
    readConstants (n + 2) off = (readConstants n (off.drop size.toNat)).map fun r =>
      (some off :: none :: r.1, size.toNat + r.2) := by
  rw [readConstants, hsize]
  rcases h : readConstants n (off.drop size.toNat) with _ | r <;> simp [hwide, h]

theorem readConstants_encode (h : ∀ c ∈ cs, c.WellFormed) (rest : Mem) :
    ∃ entries, readConstants (places cs).length (cs.flatMap encode ++ rest) =
        some (entries, (cs.flatMap encode).length) ∧
      Forall₂ PlacePoints (places cs) entries := by
  induction cs with
  | nil => exact ⟨[], rfl, Forall₂.nil⟩
  | cons c cs ih =>
    rw [forall_mem_cons] at h
    obtain ⟨entries, hread, hentries⟩ := ih h.2
    obtain ⟨size, hsize, hlen⟩ := javaGetTagLength_encode h.1 (cs.flatMap encode ++ rest)
    have hwide := wideTag_encode c (cs.flatMap encode ++ rest)
    rw [places_cons, flatMap_cons, append_assoc]
    rcases hc : c.wide with _ | _
    · refine ⟨some (c.encode ++ (cs.flatMap encode ++ rest)) :: entries, ?_,
        Forall₂.cons ⟨_, rfl⟩ hentries⟩
      simp only [Bool.false_eq_true, if_false, nil_append, length_cons]
      rw [readConstants_narrow hsize (hwide.trans hc), hlen, drop_left' rfl, hread]
      simp
    · refine ⟨some (c.encode ++ (cs.flatMap encode ++ rest)) :: none :: entries, ?_,
        Forall₂.cons ⟨_, rfl⟩ (Forall₂.cons trivial hentries)⟩
      simp only [if_true, cons_append, nil_append, length_cons]
      rw [readConstants_wide hsize (hwide.trans hc), hlen, drop_left' rfl, hread]
      simp

theorem writeConstants_narrow (hbytes : writeEntry tagLength (some addr) = some bytes)
    (hwide : wideTag addr = false) (n : ℕ) (pool : List (Option Mem)) :
    writeConstants (n + 1) (some addr :: pool) = (writeConstants n pool).map (bytes ++ ·) := by
  cases n with
  | zero => simp [writeConstants, hbytes]
  | succ n =>
    rw [writeConstants, hbytes]
    rcases writeConstants (n + 1) pool with _ | r <;> simp [hwide]

theorem writeConstants_wide (hbytes : writeEntry tagLength (some addr) = some bytes)
    (hwide : wideTag addr = true) (n : ℕ) (entry : Option Mem) (pool : List (Option Mem)) :
    writeConstants (n + 2) (some addr :: entry :: pool) =
      (writeConstants n pool).map (bytes ++ ·) := by
  rw [writeConstants, hbytes]
  rcases h : writeConstants n pool with _ | r <;> simp [hwide, h]

theorem writeConstants_points {entries : List (Option Mem)} (hcs : ∀ c ∈ cs, c.WellFormed)
    (h : Forall₂ PlacePoints (places cs) entries) (more : List (Option Mem)) :
    writeConstants (places cs).length (entries ++ more) = some (cs.flatMap encode) := by
  induction cs generalizing entries with
  | nil => cases h; rfl
  | cons c cs ih =>
    rw [forall_mem_cons] at hcs
    have hsize : ∀ rest, tagLength (c.encode ++ rest) = some c.encode.length := by
      intro rest
      obtain ⟨size, hsize, hlen⟩ := javaGetTagLength_encode hcs.1 rest
      rw [tagLength, hsize, map_some, hlen]
    rw [places_cons] at h ⊢
    obtain ⟨entry, entries, hc, hrest, rfl⟩ := forall₂_cons_left_iff.1 h
    have hentry := writeEntry_points hsize hc
    obtain ⟨rest, rfl⟩ := hc
    have hwide := wideTag_encode c rest
    rcases hw : c.wide with _ | _
    · rw [hw] at hrest hwide
      simp only [Bool.false_eq_true, if_false, nil_append, length_cons] at hrest ⊢
      rw [cons_append, writeConstants_narrow hentry hwide, ih hcs.2 hrest]
      rfl
    · rw [hw] at hrest hwide
      simp only [if_true, cons_append, nil_append, length_cons] at hrest ⊢
      obtain ⟨entry, entries, -, hplaces, rfl⟩ := forall₂_cons_left_iff.1 hrest
      rw [cons_append, writeConstants_wide hentry hwide, ih hcs.2 hplaces]
      rfl

/-! ## Classes -/

structure Represents (i : JavaClass) (f : ClassFile) : Prop where
  minorVersion : i.minorVersion = f.minorVersion
  majorVersion : i.majorVersion = f.majorVersion
  accessFlags : i.accessFlags = f.accessFlags
  thisClass : i.thisClass = f.thisClass
  superClass : i.superClass = f.superClass
  poolCount : i.constantPoolCount = UInt16.ofNat ((places f.constants).length + 1)
  pool : Holds PlacePoints (places f.constants) i.constantPool
  interfacesCount : i.interfacesCount = UInt16.ofNat f.interfaces.length
  interfaces : ∃ rest, i.interfaces = f.interfaces.flatMap be16 ++ rest
  fieldsCount : i.fieldsCount = UInt16.ofNat f.fields.length
  fields : Holds (Points Member.encode) f.fields i.fields
  methodsCount : i.methodsCount = UInt16.ofNat f.methods.length
  methods : Holds (Points Member.encode) f.methods i.methods
  attributesCount : i.attributesCount = UInt16.ofNat f.attributes.length
  attributes : Holds (Points Attribute.encode) f.attributes i.attributes

theorem length_le_flatMap {α : Type} (enc : α → Mem) {items : List α} {a : α} (h : a ∈ items) :
    (enc a).length ≤ (items.flatMap enc).length := by
  obtain ⟨before, after, rfl⟩ := append_of_mem h
  rw [flatMap_append, flatMap_cons, length_append, length_append]
  omega

theorem length_flatMap_be16 (xs : List UInt16) : (xs.flatMap be16).length = xs.length * 2 := by
  induction xs with
  | nil => rfl
  | cons x xs ih =>
    rw [flatMap_cons, length_append, ih, length_be16, length_cons]
    omega

namespace ClassFile

variable {f : ClassFile}

theorem encode_eq (f : ClassFile) : f.encode = magic ++ (be16 f.minorVersion ++
    (be16 f.majorVersion ++ (be16 (UInt16.ofNat ((places f.constants).length + 1)) ++
    (f.constants.flatMap Constant.encode ++ (be16 f.accessFlags ++ (be16 f.thisClass ++
    (be16 f.superClass ++ (be16 (UInt16.ofNat f.interfaces.length) ++
    (f.interfaces.flatMap be16 ++ (encodeTable Member.encode f.fields ++
    (encodeTable Member.encode f.methods ++
    encodeTable Attribute.encode f.attributes))))))))))) := by
  simp [encode, encodeTable]

theorem length_encode (f : ClassFile) : f.encode.length =
    10 + (f.constants.flatMap Constant.encode).length + 8 + f.interfaces.length * 2 +
      (encodeTable Member.encode f.fields).length + (encodeTable Member.encode f.methods).length +
      (encodeTable Attribute.encode f.attributes).length := by
  have hmagic : magic.length = 4 := rfl
  rw [encode_eq]
  simp only [length_append, length_be16, length_flatMap_be16, hmagic]
  omega

theorem WellFormed.sized_members (hf : f.WellFormed) :
    ∀ m ∈ f.fields ++ f.methods, Sized javaGetMethodLength Member.encode m := by
  intro m hm
  apply sized_member (hf.members m hm)
  have hle := length_le_flatMap Member.encode hm
  have hsize := hf.size
  rw [flatMap_append, length_append] at hle
  rw [length_encode, length_encodeTable, length_encodeTable, length_encodeTable] at hsize
  omega

theorem WellFormed.sized_attributes (hf : f.WellFormed) :
    ∀ a ∈ f.attributes, Sized attributeLength Attribute.encode a := by
  intro a ha
  apply sized_attribute
  have hle := length_le_flatMap Attribute.encode ha
  have hsize := hf.size
  rw [length_encode, length_encodeTable, length_encodeTable, length_encodeTable] at hsize
  omega

end ClassFile

/-- **What stands for a class file is written as its bytes.** -/
theorem javaWriteClass_represents {i : JavaClass} {f : ClassFile} (hf : f.WellFormed)
    (h : Represents i f) : javaWriteClass i = some f.encode := by
  have hsized := forall_mem_append.1 hf.sized_members
  obtain ⟨pool, morePool, hpool, hpoolPoints⟩ := h.pool
  obtain ⟨fields, moreFields, hfields, hfieldsPoint⟩ := h.fields
  obtain ⟨methods, moreMethods, hmethods, hmethodsPoint⟩ := h.methods
  obtain ⟨attributes, moreAttributes, hattributes, hattributesPoint⟩ := h.attributes
  obtain ⟨rest, hinterfaces⟩ := h.interfaces
  have hcount : ∀ {n : ℕ}, n < 2 ^ 16 → (UInt16.ofNat n).toNat = n := UInt16.toNat_ofNat_of_lt'
  have hmemcpy : memcpy (f.interfaces.length * 2) (f.interfaces.flatMap be16 ++ rest) =
      some (f.interfaces.flatMap be16) := by
    rw [← length_flatMap_be16]
    exact memcpy_append _ _
  rw [javaWriteClass, h.poolCount, hcount hf.pool, Nat.add_sub_cancel, hpool,
    writeConstants_points hf.constants hpoolPoints, h.interfacesCount, hcount hf.interfaces,
    hinterfaces, hmemcpy, h.fieldsCount, hcount hf.fields, hfields,
    writeTable_points hsized.1 hfieldsPoint, h.methodsCount, hcount hf.methods, hmethods,
    writeTable_points hsized.2 hmethodsPoint, h.attributesCount, hcount hf.attributes,
    hattributes, writeTable_points hf.sized_attributes hattributesPoint, h.minorVersion,
    h.majorVersion, h.accessFlags, h.thisClass, h.superClass, f.encode_eq]
  simp only [bind_eq_bind, bind_some, append_assoc]
  rfl

theorem length_spare : spare.length = 100 := length_replicate

/-- **A class file is read as what stands for it**, with its length and with room for a
hundred entries more in each table. -/
theorem javaReadClass_encode {f : ClassFile} (hf : f.WellFormed) :
    ∃ i, javaReadClass f.encode = some i ∧ Represents i f ∧ i.length.toNat = f.encode.length ∧
      i.constantPool.length = (places f.constants).length + 100 ∧
      i.fields.length = f.fields.length + 100 ∧ i.methods.length = f.methods.length + 100 := by
  have hsized := forall_mem_append.1 hf.sized_members
  choose pool hpool hpoolPoints using readConstants_encode hf.constants
  choose fields hfields hfieldsPoint using readCounted_encode hf.fields hsized.1
  choose methods hmethods hmethodsPoint using readCounted_encode hf.methods hsized.2
  obtain ⟨attributes, hattributes, hattributesPoint⟩ :=
    readCounted_encode hf.attributes hf.sized_attributes []
  rw [append_nil] at hattributes
  have hcount : ∀ {n : ℕ}, n < 2 ^ 16 → (UInt16.ofNat n).toNat = n := UInt16.toNat_ofNat_of_lt'
  have hskip : ∀ rest, (f.interfaces.flatMap be16 ++ rest).drop (f.interfaces.length * 2) = rest :=
    fun rest => drop_left' (length_flatMap_be16 f.interfaces)
  have htake : ∀ rest, (magic ++ rest).take 4 = magic := fun rest => take_left' rfl
  have hdrop : ∀ rest, (magic ++ rest).drop 4 = rest := fun rest => drop_left' rfl
  generalize hread : javaReadClass f.encode = r
  rw [javaReadClass, f.encode_eq, if_pos (htake _), hdrop] at hread
  simp only [↓next16_bind] at hread
  rw [hcount hf.pool, Nat.add_sub_cancel, hpool] at hread
  simp only [bind_eq_bind, bind_some, drop_left] at hread
  simp only [← bind_eq_bind, ↓next16_bind] at hread
  rw [hcount hf.interfaces, hskip, hfields] at hread
  dsimp only [bind_eq_bind, bind_some] at hread
  rw [drop_left, hmethods] at hread
  dsimp only [bind_some] at hread
  rw [drop_left, hattributes] at hread
  subst hread
  refine ⟨_, rfl, ?_, ?_, ?_, ?_, ?_⟩
  · exact {
      minorVersion := rfl, majorVersion := rfl, accessFlags := rfl, thisClass := rfl
      superClass := rfl, poolCount := rfl, interfacesCount := rfl, fieldsCount := rfl
      methodsCount := rfl, attributesCount := rfl
      pool := ⟨_, _, rfl, hpoolPoints _⟩
      interfaces := ⟨_, rfl⟩
      fields := ⟨_, _, rfl, hfieldsPoint _⟩
      methods := ⟨_, _, rfl, hmethodsPoint _⟩
      attributes := ⟨attributes, [], (append_nil _).symm, hattributesPoint⟩ }
  · rw [f.length_encode]
    have hsize := hf.size
    rw [f.length_encode] at hsize
    exact UInt32.toNat_ofNat_of_lt' (Nat.lt_trans hsize (by decide))
  · rw [length_append, ← (hpoolPoints _).length_eq, length_spare]
  · rw [length_append, ← (hfieldsPoint _).length_eq, length_spare]
  · rw [length_append, ← (hmethodsPoint _).length_eq, length_spare]

/-- **A class file that is read and written is the same**, and as long as its length says. -/
theorem java_round_trip (f : ClassFile) (hf : f.WellFormed) :
    ∃ i, javaReadClass f.encode = some i ∧ javaWriteClass i = some f.encode ∧
      i.length.toNat = f.encode.length := by
  obtain ⟨i, hread, hrepresents, hlength, -⟩ := javaReadClass_encode hf
  exact ⟨i, hread, javaWriteClass_represents hf hrepresents, hlength⟩

def smallClass : ClassFile where
  minorVersion := 0
  majorVersion := 52
  constants := [.fixed .long [0, 0, 0, 0, 0, 0, 0, 1], .utf8 [67, 111, 100, 101]]
  accessFlags := 33
  thisClass := 3
  superClass := 0
  interfaces := [7]
  fields := []
  methods := [⟨1, 3, 3, [⟨3, [0, 1, 0, 1, 0, 0, 0, 1, 177, 0, 0, 0, 0]⟩]⟩]
  attributes := []

theorem smallClass_wellFormed : smallClass.WellFormed := by decide

theorem java_round_trip_small : ∃ i, javaReadClass smallClass.encode = some i ∧
    javaWriteClass i = some smallClass.encode ∧ i.length.toNat = smallClass.encode.length :=
  java_round_trip smallClass smallClass_wellFormed

end AppView.Java

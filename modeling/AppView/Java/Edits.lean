import AppView.Framework.Runs
import AppView.Java.RoundTrip

/-!
# Edited classes

What each edit of `javabci.c` means for a class file (`ClassFile.edit`), and that the class
in memory keeps standing for the edited file (`Tracks`). The length that is recorded on the
way is that of the file but for three bytes for each string constant, whose tag is not
counted: `java_edits` says that **the recorded length is right exactly if no string was
added**.
-/

namespace AppView.Java

open Framework List Option
open ClassFile (length_encode)

inductive Edit where
  | addString (str : Mem)
  | addNameAndType (name desc : Mem)
  | addMethodRef (classIndex nameAndTypeIndex : UInt16)
  | addField (name descriptor : Mem) (accessFlags : UInt16)
  | addMethod (name descriptor : Mem) (accessFlags maxStack maxLocals : UInt16)
      (code : Option Mem)
  | copyMethod (i : ℕ) (newName : Mem)
  | convertMethodToNative (i : ℕ)
  | injectCode (i : ℕ) (code : Mem)
  deriving DecidableEq

def JavaClass.edit (info : JavaClass) : Edit → Option JavaClass
  | .addString str => (javaAddStringTag info str).map Prod.fst
  | .addNameAndType name desc => (javaAddNameAndTypeTag info name desc).map Prod.fst
  | .addMethodRef classIndex nameAndTypeIndex =>
    (javaAddMethodRefTag info classIndex nameAndTypeIndex).map Prod.fst
  | .addField name descriptor accessFlags => javaAddField info name descriptor accessFlags
  | .addMethod name descriptor accessFlags maxStack maxLocals code =>
    javaAddMethod info name descriptor accessFlags maxStack maxLocals code
  | .copyMethod i newName => do
    let method ← methodAt info i
    javaCopyMethod info method newName
  | .convertMethodToNative i => javaConvertMethodToNative info i
  | .injectCode i code => do
    let method ← methodAt info i
    let method ← javaInjectCode info method code
    let methods ← setEntry info.methods i method
    return { info with methods := methods }

/-! ## What the edits mean -/

namespace ClassFile

def nextIndex (f : ClassFile) : UInt16 := UInt16.ofNat ((places f.constants).length + 1)

def add (f : ClassFile) (c : Constant) : ClassFile := { f with constants := f.constants ++ [c] }

def addField (f : ClassFile) (m : Member) : ClassFile := { f with fields := f.fields ++ [m] }

def addMethod (f : ClassFile) (m : Member) : ClassFile := { f with methods := f.methods ++ [m] }

def setMethod (f : ClassFile) (i : ℕ) (m : Member) : ClassFile :=
  { f with methods := f.methods.set i m }

def utf8At (f : ClassFile) (index : UInt16) : Option Mem :=
  if index = 0 then none
  else
    match ((places f.constants)[index.toNat - 1]?).join with
    | some (.utf8 bytes) => some bytes
    | _ => none

def isCode (f : ClassFile) (a : Attribute) : Bool :=
  match f.utf8At a.nameIndex with
  | some bytes => bytes.takeWhile (· ≠ 0) = codeName
  | none => false

end ClassFile

def codeAttribute (nameIndex maxStack maxLocals : UInt16) (code : Mem) : Attribute :=
  ⟨nameIndex, be16 maxStack ++ be16 maxLocals ++ be32 (UInt32.ofNat code.length) ++ code ++
    be16 0 ++ be16 0⟩

def inject (code info : Mem) : Mem :=
  match next32 (info.drop 4) with
  | some (codeLen, body) => info.take 8 ++
      (code ++ (replicate (codeLen.toNat - 1) 0 ++ body.drop (codeLen.toNat - 1)).drop
        code.length)
  | none => info

def Member.native (m : Member) : Member :=
  { m with accessFlags := m.accessFlags ||| accNative, attributes := [] }

def ClassFile.injectMember (f : ClassFile) (code : Mem) (m : Member) : Member :=
  { m with
    attributes := m.attributes.modify (m.attributes.findIdx f.isCode) fun a =>
      { a with info := inject code a.info } }

def ClassFile.edit (f : ClassFile) : Edit → ClassFile
  | .addString str => (f.add (.utf8 str)).add (.fixed .string (be16 f.nextIndex))
  | .addNameAndType name desc =>
    ((f.add (.utf8 name)).add (.utf8 desc)).add
      (.fixed .nameAndType (be16 f.nextIndex ++ be16 (f.add (.utf8 name)).nextIndex))
  | .addMethodRef classIndex nameAndTypeIndex =>
    f.add (.fixed .methodref (be16 classIndex ++ be16 nameAndTypeIndex))
  | .addField name descriptor accessFlags =>
    ((f.add (.utf8 name)).add (.utf8 descriptor)).addField
      ⟨accessFlags, f.nextIndex, (f.add (.utf8 name)).nextIndex, []⟩
  | .addMethod name descriptor accessFlags maxStack maxLocals code =>
    let named := (f.add (.utf8 name)).add (.utf8 descriptor)
    match code with
    | none => named.addMethod ⟨accessFlags, f.nextIndex, (f.add (.utf8 name)).nextIndex, []⟩
    | some code => (named.add (.utf8 codeName)).addMethod
        ⟨accessFlags, f.nextIndex, (f.add (.utf8 name)).nextIndex,
          [codeAttribute named.nextIndex maxStack maxLocals code]⟩
  | .copyMethod i newName =>
    match f.methods[i]? with
    | some m => (f.add (.utf8 newName)).addMethod { m with nameIndex := f.nextIndex }
    | none => f
  | .convertMethodToNative i =>
    match f.methods[i]? with
    | some m => f.setMethod i m.native
    | none => f
  | .injectCode i code =>
    match f.methods[i]? with
    | some m => f.setMethod i (f.injectMember code m)
    | none => f

/-! ## Proper edits -/

def Injectable (f : ClassFile) (code : Mem) (m : Member) : Prop :=
  ∃ pre a post head codeLen body, m.attributes = pre ++ a :: post ∧
    (∀ b ∈ pre, (f.utf8At b.nameIndex).isSome ∧ f.isCode b = false) ∧ f.isCode a = true ∧
    a.info = head ++ (be32 codeLen ++ body) ∧ head.length = 4 ∧
    0 < codeLen.toNat ∧ codeLen.toNat ≤ body.length ∧ code.length ≤ codeLen.toNat

def Edit.Applies (f : ClassFile) : Edit → Prop
  | .copyMethod i _ | .convertMethodToNative i => i < f.methods.length
  | .injectCode i code => ∃ m, f.methods[i]? = some m ∧ Injectable f code m
  | _ => True

def Proper (f : ClassFile) (e : Edit) : Prop := e.Applies f ∧ (f.edit e).WellFormed

/-! ## What the edits add -/

def Edit.constants : Edit → ℕ
  | .addString _ => 2
  | .addNameAndType _ _ => 3
  | .addMethodRef _ _ => 1
  | .addField .. => 2
  | .addMethod _ _ _ _ _ code => if code.isSome then 3 else 2
  | .copyMethod _ _ => 1
  | .convertMethodToNative _ | .injectCode _ _ => 0

def Edit.fields : Edit → ℕ
  | .addField .. => 1
  | _ => 0

def Edit.methods : Edit → ℕ
  | .addMethod .. | .copyMethod _ _ => 1
  | _ => 0

def Edit.missing : Edit → ℕ
  | .addString _ => 3
  | _ => 0

/-! ## Tables -/

section Holds

variable {α : Type} {R : α → Option Mem → Prop} {items : List α} {table : List (Option Mem)}
  {a : α} {m : Mem}

theorem Holds.length_le (h : Holds R items table) : items.length ≤ table.length := by
  obtain ⟨entries, more, rfl, hentries⟩ := h
  rw [length_append, hentries.length_eq]
  exact Nat.le_add_right _ _

theorem Holds.push (h : Holds R items table) (hroom : items.length < table.length)
    (ha : R a (some m)) : Holds R (items ++ [a]) (table.set items.length (some m)) := by
  obtain ⟨entries, more, rfl, hentries⟩ := h
  rw [length_append, ← hentries.length_eq] at hroom
  obtain ⟨e, more, rfl⟩ := exists_cons_of_length_pos (l := more) (by omega)
  refine ⟨entries ++ [some m], more, ?_, ?_⟩
  · rw [hentries.length_eq, set_append_right _ _ (Nat.le_refl _), Nat.sub_self]
    simp
  · exact rel_append hentries (Forall₂.cons ha Forall₂.nil)

theorem Holds.set (h : Holds R items table) {i : ℕ} (hi : i < items.length)
    (ha : R a (some m)) : Holds R (items.set i a) (table.set i (some m)) := by
  obtain ⟨entries, more, rfl, hentries⟩ := h
  refine ⟨entries.set i (some m), more, ?_, ?_⟩
  · rw [set_append_left _ _ (hentries.length_eq ▸ hi)]
  · rw [forall₂_iff_get] at hentries ⊢
    refine ⟨by simpa using hentries.1, ?_⟩
    intro j hj hj'
    simp only [get_eq_getElem, getElem_set]
    split_ifs with hij
    · exact ha
    · exact hentries.2 j (by simpa using hj) (by simpa using hj')

theorem Holds.get (h : Holds R items table) {i : ℕ} (hi : items[i]? = some a) :
    ∃ entry, table[i]? = some entry ∧ R a entry := by
  obtain ⟨entries, more, rfl, hentries⟩ := h
  obtain ⟨hlt, rfl⟩ := List.getElem?_eq_some_iff.1 hi
  have hlt' : i < entries.length := hentries.length_eq ▸ hlt
  refine ⟨entries[i], ?_, (forall₂_iff_get.1 hentries).2 i hlt hlt'⟩
  rw [getElem?_append_left hlt', getElem?_eq_getElem hlt']

end Holds

variable {table : List (Option Mem)}

theorem setEntry_of_lt {idx : ℕ} (h : idx < table.length)
    (entry : Mem) : setEntry table idx entry = some (table.set idx (some entry)) := if_pos h

theorem points_self {α : Type} (enc : α → Mem) (a : α) : Points enc a (some (enc a)) :=
  ⟨[], by rw [append_nil]⟩

/-! ## Constants -/

structure Tracks (i : JavaClass) (f : ClassFile) (missing : UInt32) (constants fields methods : ℕ) :
    Prop where
  represents : Represents i f
  length : i.length + missing = UInt32.ofNat f.encode.length
  constants : (places f.constants).length + constants ≤ i.constantPool.length
  fields : f.fields.length + fields ≤ i.fields.length
  methods : f.methods.length + methods ≤ i.methods.length

theorem places_add {f : ClassFile} {c : Constant} (hc : c.wide = false) :
    places (f.add c).constants = places f.constants ++ [some c] := by
  rw [ClassFile.add, places, flatMap_append, ← places, ← places, places_cons, hc]
  rfl

theorem length_add (f : ClassFile) (c : Constant) :
    (f.add c).encode.length = f.encode.length + c.encode.length := by
  rw [length_encode, length_encode]
  simp only [ClassFile.add, flatMap_append, flatMap_singleton, length_append]
  omega

section Constants

variable {i : JavaClass} {f : ClassFile} {missing : UInt32} {p q r : ℕ}

theorem Tracks.add_length (h : Tracks i f missing p q r) (n : UInt32) :
    Tracks { i with length := i.length + n } f (missing - n) p q r where
  represents := { h.represents with }
  length := by
    have hlength := h.length
    grind
  constants := h.constants
  fields := h.fields
  methods := h.methods

theorem Tracks.addTag (h : Tracks i f missing (p + 1) q r) {c : Constant} (hc : c.wide = false)
    (hpool : (places f.constants).length + 2 < 2 ^ 16) :
    ∃ i', addTag i c.encode = some (i', f.nextIndex) ∧
      Tracks i' (f.add c) (missing + UInt32.ofNat c.encode.length) p q r := by
  have hcount : i.constantPoolCount - 1 = UInt16.ofNat (places f.constants).length := by
    rw [h.represents.poolCount, UInt16.ofNat_add]
    exact UInt16.add_sub_cancel ..
  have hidx : (i.constantPoolCount - 1).toNat = (places f.constants).length := by
    rw [hcount]
    exact UInt16.toNat_ofNat_of_lt' (show _ < 2 ^ 16 by omega)
  have hroom : (places f.constants).length < i.constantPool.length := by
    have hconstants := h.constants
    omega
  refine ⟨{ i with
    constantPoolCount := i.constantPoolCount + 1
    constantPool := i.constantPool.set (places f.constants).length (some c.encode) }, ?_, ?_⟩
  · have hnext : i.constantPoolCount - 1 + 1 = f.nextIndex := by
      rw [hcount, ClassFile.nextIndex, UInt16.ofNat_add]
      rfl
    rw [Java.addTag, hidx, setEntry_of_lt hroom, hnext]
    rfl
  · have hplaces := places_add (f := f) hc
    refine ⟨{ h.represents with poolCount := ?_, pool := ?_ }, ?_, ?_, h.fields, h.methods⟩
    · rw [h.represents.poolCount, hplaces, length_append]
      exact (UInt16.ofNat_add ((places f.constants).length + 1) 1).symm
    · rw [hplaces]
      exact h.represents.pool.push hroom (points_self Constant.encode c)
    · rw [length_add, UInt32.ofNat_add, ← h.length]
      grind
    · rw [hplaces, length_append, length_set]
      have hconstants := h.constants
      simp only [length_singleton]
      omega

theorem Tracks.addUtf8Tag (h : Tracks i f missing (p + 1) q r) (str : Mem)
    (hpool : (places f.constants).length + 2 < 2 ^ 16) :
    ∃ i', addUtf8Tag i str = some (i', f.nextIndex) ∧
      Tracks i' (f.add (.utf8 str)) missing p q r := by
  have hlen : (Constant.utf8 str).encode.length = str.length + 3 := by
    simp [Constant.encode]
    omega
  obtain ⟨i', hadd, htracks⟩ := (h.add_length (UInt32.ofNat (str.length + 3))).addTag
    (c := .utf8 str) rfl hpool
  refine ⟨i', hadd, ?_⟩
  rw [hlen] at htracks
  have hmissing : missing - UInt32.ofNat (str.length + 3) + UInt32.ofNat (str.length + 3) =
      missing := by grind
  rwa [hmissing] at htracks

theorem Tracks.addTag_counted (h : Tracks i f missing (p + 1) q r) (tag : Tag) (data : Mem)
    (hc : (Constant.fixed tag data).wide = false) {n : ℕ} (hn : data.length + 1 = n)
    (hpool : (places f.constants).length + 2 < 2 ^ 16) :
    ∃ i', Java.addTag { i with length := i.length + UInt32.ofNat n } (tag.code :: data) =
        some (i', f.nextIndex) ∧
      Tracks i' (f.add (.fixed tag data)) missing p q r := by
  obtain ⟨i', hadd, htracks⟩ := (h.add_length (UInt32.ofNat n)).addTag hc hpool
  refine ⟨i', hadd, ?_⟩
  have hlen : (Constant.fixed tag data).encode.length = n := hn
  have hmissing : missing - UInt32.ofNat n + UInt32.ofNat n = missing := by grind
  rwa [hlen, hmissing] at htracks

end Constants

/-! ## Fields and methods -/

theorem addEntry_ok {n : ℕ} (hn : n + 1 < 2 ^ 16)
    (hroom : n < table.length) (entry : Mem) : addEntry (UInt16.ofNat n) table entry =
      some (UInt16.ofNat (n + 1), table.set n (some entry)) := by
  have hcount : UInt16.ofNat n + 1 = UInt16.ofNat (n + 1) := (UInt16.ofNat_add n 1).symm
  have htoNat : (UInt16.ofNat (n + 1)).toNat = n + 1 := UInt16.toNat_ofNat_of_lt' hn
  have hne : UInt16.ofNat (n + 1) ≠ 0 := by
    intro h0
    rw [h0] at htoNat
    simp at htoNat
  rw [addEntry, hcount, if_neg hne, htoNat, Nat.add_sub_cancel, setEntry_of_lt hroom]
  rfl

section Members

variable {i : JavaClass} {f : ClassFile} {missing : UInt32} {p q r : ℕ}

theorem length_addField (f : ClassFile) (m : Member) :
    (f.addField m).encode.length = f.encode.length + m.encode.length := by
  rw [length_encode, length_encode]
  simp only [ClassFile.addField, length_encodeTable, flatMap_append, flatMap_singleton,
    length_append]
  omega

theorem length_addMethod (f : ClassFile) (m : Member) :
    (f.addMethod m).encode.length = f.encode.length + m.encode.length := by
  rw [length_encode, length_encode]
  simp only [ClassFile.addMethod, length_encodeTable, flatMap_append, flatMap_singleton,
    length_append]
  omega

theorem Tracks.addField (h : Tracks i f missing p (q + 1) r) (m : Member)
    (hfields : f.fields.length + 1 < 2 ^ 16) : ∃ table, addEntry i.fieldsCount i.fields m.encode =
        some (UInt16.ofNat (f.fields.length + 1), table) ∧
      Tracks { i with
        fieldsCount := UInt16.ofNat (f.fields.length + 1)
        fields := table
        length := i.length + UInt32.ofNat m.encode.length } (f.addField m) missing p q r := by
  have hroom : f.fields.length < i.fields.length := by
    have hroom := h.fields
    omega
  refine ⟨i.fields.set f.fields.length (some m.encode), ?_, ?_⟩
  · rw [h.represents.fieldsCount, addEntry_ok hfields hroom]
  · refine ⟨{ h.represents with fieldsCount := ?_, fields := ?_ }, ?_, h.constants, ?_, h.methods⟩
    · simp [ClassFile.addField]
    · exact h.represents.fields.push hroom (points_self Member.encode m)
    · rw [length_addField, UInt32.ofNat_add, ← h.length]
      grind
    · have hfields := h.fields
      simp only [ClassFile.addField, length_append, length_set, length_singleton]
      omega

theorem Tracks.addMethod (h : Tracks i f missing p q (r + 1)) (m : Member)
    (hmethods : f.methods.length + 1 < 2 ^ 16) : ∃ i', addMethodEntry i m.encode = some i' ∧
      Tracks { i' with length := i'.length + UInt32.ofNat m.encode.length } (f.addMethod m)
        missing p q r := by
  have hroom : f.methods.length < i.methods.length := by
    have hroom := h.methods
    omega
  refine ⟨{ i with
    methodsCount := UInt16.ofNat (f.methods.length + 1)
    methods := i.methods.set f.methods.length (some m.encode) }, ?_, ?_⟩
  · rw [addMethodEntry, h.represents.methodsCount, addEntry_ok hmethods hroom]
    rfl
  · refine ⟨{ h.represents with methodsCount := ?_, methods := ?_ }, ?_, h.constants, h.fields, ?_⟩
    · simp [ClassFile.addMethod]
    · exact h.represents.methods.push hroom (points_self Member.encode m)
    · rw [length_addMethod, UInt32.ofNat_add, ← h.length]
      grind
    · have hmethods := h.methods
      simp only [ClassFile.addMethod, length_append, length_set, length_singleton]
      omega

variable {k : ℕ}

theorem Tracks.methodAt (h : Tracks i f missing p q r) {m : Member}
    (hm : f.methods[k]? = some m) : ∃ rest, methodAt i k = some (m.encode ++ rest) := by
  obtain ⟨entry, hentry, rest, rfl⟩ := h.represents.methods.get hm
  refine ⟨rest, ?_⟩
  rw [Java.methodAt, hentry]
  rfl

theorem length_setMethod {m : Member} (hm : f.methods[k]? = some m) (m' : Member) :
    (f.setMethod k m').encode.length + m.encode.length = f.encode.length + m'.encode.length := by
  obtain ⟨hk, rfl⟩ := List.getElem?_eq_some_iff.1 hm
  have hsplit : f.methods = f.methods.take k ++ f.methods[k] :: f.methods.drop (k + 1) := by
    rw [← drop_eq_getElem_cons hk, take_append_drop]
  have hset : f.methods.set k m' = f.methods.take k ++ m' :: f.methods.drop (k + 1) := by
    rw [set_eq_take_append_cons_drop, if_pos hk]
  have hold : (f.methods.flatMap Member.encode).length =
      ((f.methods.take k).flatMap Member.encode).length + f.methods[k].encode.length +
        ((f.methods.drop (k + 1)).flatMap Member.encode).length := by
    conv_lhs => rw [hsplit]
    rw [flatMap_append, flatMap_cons, length_append, length_append]
    omega
  rw [length_encode, length_encode]
  simp only [ClassFile.setMethod, length_encodeTable, hset, hold, flatMap_append,
    flatMap_cons, length_append]
  omega

theorem Tracks.setMethod (h : Tracks i f missing p q r) {m m' : Member}
    (hm : f.methods[k]? = some m) {bytes : Mem} (hbytes : Points Member.encode m' (some bytes)) :
    ∃ table, setEntry i.methods k bytes = some table ∧ Tracks { i with
        methods := table
        length := i.length + (UInt32.ofNat m'.encode.length - UInt32.ofNat m.encode.length) }
        (f.setMethod k m') missing p q r := by
  have hk : k < f.methods.length := (List.getElem?_eq_some_iff.1 hm).1
  have hroom : k < i.methods.length := Nat.lt_of_lt_of_le hk h.represents.methods.length_le
  refine ⟨i.methods.set k (some bytes), setEntry_of_lt hroom bytes, ?_⟩
  refine ⟨{ h.represents with methodsCount := ?_, methods := ?_ }, ?_, h.constants, h.fields, ?_⟩
  · simp [ClassFile.setMethod, h.represents.methodsCount]
  · exact h.represents.methods.set hk hbytes
  · have hlength := congrArg UInt32.ofNat (length_setMethod hm m')
    rw [UInt32.ofNat_add, UInt32.ofNat_add, ← h.length] at hlength
    grind
  · simpa [ClassFile.setMethod] using h.methods

end Members

/-! ## Each edit -/

variable {place : ℕ} {b bytes : Mem}

theorem overwrite_at {a : Mem} (ha : a.length = place) (hb : bytes.length ≤ b.length) :
    overwrite (a ++ b) place bytes = some (a ++ (bytes ++ b.drop bytes.length)) := by
  subst ha
  rw [overwrite, if_pos]
  · rw [take_left, ← drop_drop, drop_left, append_assoc]
  · simp only [length_append]
    omega

theorem overwrite_append {a c : Mem} (ha : a.length = place) (hb : bytes.length = b.length) :
    overwrite (a ++ (b ++ c)) place bytes = some (a ++ (bytes ++ c)) := by
  rw [overwrite_at ha, hb, drop_left]
  rw [hb, length_append]
  exact Nat.le_add_right _ _

theorem Member.encode_eq (m : Member) : m.encode = be16 m.accessFlags ++ (be16 m.nameIndex ++
    (be16 m.descriptorIndex ++ (be16 (UInt16.ofNat m.attributes.length) ++
      m.attributes.flatMap Attribute.encode))) := by
  simp [Member.encode, encodeTable]

variable (accessFlags nameIndex descriptorIndex : UInt16)

theorem Member.encode_bare : Member.encode ⟨accessFlags, nameIndex, descriptorIndex, []⟩ =
      be16 accessFlags ++ be16 nameIndex ++ be16 descriptorIndex ++ be16 0 := by
  rw [Member.encode, encodeTable, flatMap_nil, append_nil]
  rfl

theorem Member.length_encode_bare :
    (Member.encode ⟨accessFlags, nameIndex, descriptorIndex, []⟩).length = 8 := by
  simp [Member.encode_bare]

section Each

variable {i : JavaClass} {f : ClassFile} {missing : UInt32} {p q r : ℕ}

variable {c : Constant} {maxStack maxLocals : UInt16} {post : List Attribute}

theorem length_places_add (f : ClassFile) (hc : c.wide = false) :
    (places (f.add c).constants).length = (places f.constants).length + 1 := by
  rw [places_add hc, length_append, length_singleton]

/-- The code makes the edit, and what it has then tracks the edited file. -/
abbrev Edited (i : JavaClass) (f : ClassFile) (e : Edit) (missing : UInt32) (p q r : ℕ) : Prop :=
  ∃ i', i.edit e = some i' ∧ Tracks i' (f.edit e) missing p q r

theorem edit_addString (h : Tracks i f missing (p + 1 + 1) q r) {str : Mem}
    (hpool : (places f.constants).length + 3 < 2 ^ 16) :
    Edited i f (.addString str) (missing + 3) p q r := by
  obtain ⟨i₁, hutf8, h₁⟩ := h.addUtf8Tag str (by omega)
  obtain ⟨i₂, hstring, h₂⟩ := h₁.addTag (c := .fixed .string (be16 f.nextIndex)) rfl
    (by rw [length_places_add f rfl]; omega)
  refine ⟨i₂, ?_, h₂⟩
  have hadd : javaAddStringTag i str = some (i₂, (f.add (.utf8 str)).nextIndex) := by
    rw [javaAddStringTag, hutf8]
    exact hstring
  rw [JavaClass.edit, hadd]
  rfl

variable {name descriptor code head body : Mem} {accessFlags : UInt16} {k : ℕ}
    {pre : List Attribute} {codeLen : UInt32}

theorem edit_addNameAndType (h : Tracks i f missing (p + 1 + 1 + 1) q r) {desc : Mem}
    (hpool : (places f.constants).length + 4 < 2 ^ 16) :
    Edited i f (.addNameAndType name desc) missing p q r := by
  obtain ⟨i₁, hname, h₁⟩ := h.addUtf8Tag name (by omega)
  obtain ⟨i₂, hdesc, h₂⟩ := h₁.addUtf8Tag desc (by rw [length_places_add f rfl]; omega)
  obtain ⟨i₃, htag, h₃⟩ := h₂.addTag_counted .nameAndType
    (be16 f.nextIndex ++ be16 (f.add (.utf8 name)).nextIndex) (n := 5) rfl (by simp)
    (by rw [length_places_add _ rfl, length_places_add f rfl]; omega)
  refine ⟨i₃, ?_, h₃⟩
  have hadd : javaAddNameAndTypeTag i name desc =
      some (i₃, ((f.add (.utf8 name)).add (.utf8 desc)).nextIndex) := by
    rw [javaAddNameAndTypeTag, hname]
    dsimp only [bind_eq_bind, bind_some]
    rw [hdesc]
    exact htag
  rw [JavaClass.edit, hadd]
  rfl

theorem edit_addMethodRef (h : Tracks i f missing (p + 1) q r) {classIndex natIndex : UInt16}
    (hpool : (places f.constants).length + 2 < 2 ^ 16) :
    Edited i f (.addMethodRef classIndex natIndex) missing p q r := by
  obtain ⟨i₁, htag, h₁⟩ := h.addTag_counted .methodref
    (be16 classIndex ++ be16 natIndex) (n := 5) rfl (by simp) hpool
  refine ⟨i₁, ?_, h₁⟩
  have hadd : javaAddMethodRefTag i classIndex natIndex = some (i₁, f.nextIndex) := htag
  rw [JavaClass.edit, hadd]
  rfl

theorem edit_addField (h : Tracks i f missing (p + 1 + 1) (q + 1) r)
    (hpool : (places f.constants).length + 3 < 2 ^ 16) (hfields : f.fields.length + 1 < 2 ^ 16) :
    Edited i f (.addField name descriptor accessFlags) missing p q r := by
  obtain ⟨i₁, hname, h₁⟩ := h.addUtf8Tag name (by omega)
  obtain ⟨i₂, hdescriptor, h₂⟩ := h₁.addUtf8Tag descriptor (by rw [length_places_add f rfl]; omega)
  obtain ⟨table, hentry, h₃⟩ := h₂.addField
    ⟨accessFlags, f.nextIndex, (f.add (.utf8 name)).nextIndex, []⟩ hfields
  rw [Member.encode_bare] at hentry
  rw [Member.length_encode_bare] at h₃
  refine ⟨_, ?_, h₃⟩
  rw [JavaClass.edit, javaAddField, hname]
  dsimp only [bind_eq_bind, bind_some]
  rw [hdescriptor]
  dsimp only [bind_some]
  rw [hentry]
  rfl

theorem edit_addMethod_bare (h : Tracks i f missing (p + 1 + 1) q (r + 1))
    (hpool : (places f.constants).length + 3 < 2 ^ 16)
    (hmethods : f.methods.length + 1 < 2 ^ 16) :
    Edited i f (.addMethod name descriptor accessFlags maxStack maxLocals none)
      missing p q r := by
  obtain ⟨i₁, hname, h₁⟩ := h.addUtf8Tag name (by omega)
  obtain ⟨i₂, hdescriptor, h₂⟩ := h₁.addUtf8Tag descriptor (by rw [length_places_add f rfl]; omega)
  obtain ⟨i₃, hentry, h₃⟩ := h₂.addMethod
    ⟨accessFlags, f.nextIndex, (f.add (.utf8 name)).nextIndex, []⟩ hmethods
  rw [Member.encode_bare] at hentry
  rw [Member.length_encode_bare] at h₃
  refine ⟨_, ?_, h₃⟩
  rw [JavaClass.edit, javaAddMethod, hname]
  dsimp only [bind_eq_bind, bind_some]
  rw [hdescriptor]
  dsimp only [bind_some, newMethod]
  rw [hentry]
  rfl

theorem length_codeAttribute (nameIndex maxStack maxLocals : UInt16) (code : Mem) :
    (codeAttribute nameIndex maxStack maxLocals code).info.length = 12 + code.length := by
  simp only [codeAttribute, length_append, length_be16, length_be32]
  omega

theorem newMethod_encode (accessFlags nameIndex descriptorIndex maxStack maxLocals
    codeNameIndex : UInt16) (code : Mem) :
    newMethod accessFlags nameIndex descriptorIndex maxStack maxLocals
        (some (codeNameIndex, code)) = Member.encode ⟨accessFlags, nameIndex, descriptorIndex,
        [codeAttribute codeNameIndex maxStack maxLocals code]⟩ := by
  rw [Member.encode, encodeTable, flatMap_singleton, Attribute.encode, length_codeAttribute]
  rfl

theorem edit_addMethod_code (h : Tracks i f missing (p + 1 + 1 + 1) q (r + 1))
    (hpool : (places f.constants).length + 4 < 2 ^ 16)
    (hmethods : f.methods.length + 1 < 2 ^ 16) :
    Edited i f (.addMethod name descriptor accessFlags maxStack maxLocals (some code))
      missing p q r := by
  obtain ⟨i₁, hname, h₁⟩ := h.addUtf8Tag name (by omega)
  obtain ⟨i₂, hdescriptor, h₂⟩ := h₁.addUtf8Tag descriptor (by rw [length_places_add f rfl]; omega)
  obtain ⟨i₃, hcode, h₃⟩ := h₂.addUtf8Tag codeName
    (by rw [length_places_add _ rfl, length_places_add f rfl]; omega)
  obtain ⟨i₄, hentry, h₄⟩ := h₃.addMethod ⟨accessFlags, f.nextIndex, (f.add (.utf8 name)).nextIndex,
      [codeAttribute ((f.add (.utf8 name)).add (.utf8 descriptor)).nextIndex maxStack maxLocals
        code]⟩ hmethods
  rw [← newMethod_encode] at hentry h₄
  have hlength : (newMethod accessFlags f.nextIndex (f.add (.utf8 name)).nextIndex maxStack
      maxLocals (some (((f.add (.utf8 name)).add (.utf8 descriptor)).nextIndex, code))).length =
      8 + 2 + 4 + (12 + code.length) := by
    simp only [newMethod, length_append, length_be16, length_be32]
    omega
  rw [hlength] at h₄
  refine ⟨_, ?_, h₄⟩
  rw [JavaClass.edit, javaAddMethod, hname]
  dsimp only [bind_eq_bind, bind_some]
  rw [hdescriptor]
  dsimp only [bind_some]
  rw [hcode]
  dsimp only [bind_some]
  rw [hentry]
  rfl

variable {m : Member}

theorem javaGetMethodLength_encode (hf : f.WellFormed) (hm : f.methods[k]? = some m) (rest : Mem) :
    javaGetMethodLength (m.encode ++ rest) = some (UInt32.ofNat m.encode.length) ∧
      (UInt32.ofNat m.encode.length).toNat = m.encode.length := by
  obtain ⟨size, hsize, hlen⟩ := hf.sized_members m (mem_append_right _ (mem_of_getElem? hm)) rest
  rw [hsize, ← hlen, UInt32.ofNat_toNat]
  exact ⟨rfl, rfl⟩

theorem edit_copyMethod (h : Tracks i f missing (p + 1) q (r + 1)) (hf : f.WellFormed)
    (hm : f.methods[k]? = some m) {newName : Mem}
    (hpool : (places f.constants).length + 2 < 2 ^ 16) (hmethods : f.methods.length + 1 < 2 ^ 16) :
    Edited i f (.copyMethod k newName) missing p q r := by
  obtain ⟨rest, hmethod⟩ := h.methodAt hm
  obtain ⟨hsize, hlen⟩ := javaGetMethodLength_encode hf hm rest
  obtain ⟨i₁, hname, h₁⟩ := h.addUtf8Tag newName hpool
  obtain ⟨i₂, hentry, h₂⟩ := h₁.addMethod { m with nameIndex := f.nextIndex } hmethods
  have hdest : overwrite m.encode 2 (be16 f.nextIndex) =
      some { m with nameIndex := f.nextIndex }.encode := by
    rw [m.encode_eq, Member.encode_eq]
    exact overwrite_append (length_be16 _) (by rw [length_be16, length_be16])
  have hlength : { m with nameIndex := f.nextIndex }.encode.length = m.encode.length := by
    simp [Member.encode]
  rw [hlength] at h₂
  refine ⟨_, ?_, by simpa [ClassFile.edit, hm] using h₂⟩
  rw [JavaClass.edit, hmethod]
  dsimp only [bind_eq_bind, bind_some]
  rw [javaCopyMethod, hsize]
  dsimp only [bind_eq_bind, bind_some]
  rw [hlen, memcpy_append, hname]
  dsimp only [bind_some]
  rw [hdest]
  dsimp only [bind_some]
  rw [hentry]
  rfl

theorem edit_convertMethodToNative (h : Tracks i f missing p q r) (hf : f.WellFormed)
    (hm : f.methods[k]? = some m) :
    Edited i f (.convertMethodToNative k) missing p q r := by
  obtain ⟨rest, hmethod⟩ := h.methodAt hm
  obtain ⟨hsize, -⟩ := javaGetMethodLength_encode hf hm rest
  set indices := be16 m.nameIndex ++ (be16 m.descriptorIndex ++
    be16 (UInt16.ofNat m.attributes.length)) with hindices
  -- the eight bytes in front of the attributes
  have hcopy : memcpy 8 (m.encode ++ rest) = some (be16 m.accessFlags ++ indices) := by
    rw [m.encode_eq, hindices]
    rw [append_assoc _ _ rest]
    exact memcpy_append (be16 m.accessFlags ++ be16 m.nameIndex ++ be16 m.descriptorIndex ++
      be16 (UInt16.ofNat m.attributes.length)) _
  have hflags : next16 (m.encode ++ rest) = some (m.accessFlags, (m.encode ++ rest).drop 2) := by
    rw [m.encode_eq, append_assoc, next16_be16, drop_be16]
  have hnative : overwrite (be16 m.accessFlags ++ indices) 0 (be16 (m.accessFlags ||| accNative)) =
      some (be16 (m.accessFlags ||| accNative) ++ indices) :=
    overwrite_append (a := []) (b := be16 m.accessFlags) rfl
      ((length_be16 _).trans (length_be16 _).symm)
  have hcount : overwrite (be16 (m.accessFlags ||| accNative) ++ indices) 6 (be16 0) =
      some m.native.encode := by
    have hcount := overwrite_append (c := [])
      (show (be16 (m.accessFlags ||| accNative) ++ be16 m.nameIndex ++
        be16 m.descriptorIndex).length = 6 by simp only [length_append, length_be16])
      ((length_be16 0).trans (length_be16 (UInt16.ofNat m.attributes.length)).symm)
    rw [Member.native, Member.encode_bare, hindices]
    simpa using hcount
  obtain ⟨table, hset, htracks⟩ := h.setMethod hm (points_self Member.encode m.native)
  have hlength : m.native.encode.length = 8 := Member.length_encode_bare ..
  rw [hlength] at htracks
  refine ⟨_, ?_, by simpa [ClassFile.edit, hm] using htracks⟩
  rw [JavaClass.edit, javaConvertMethodToNative, hmethod]
  dsimp only [bind_eq_bind, bind_some]
  rw [hsize, hcopy, hflags]
  dsimp only [bind_some]
  rw [hnative]
  dsimp only [bind_some]
  rw [hcount]
  dsimp only [bind_some]
  rw [hset]
  rfl

/-! ### Injected code -/

theorem mem_of_places {cs : List Constant} (h : some c ∈ places cs) : c ∈ cs := by
  obtain ⟨d, hd, hmem⟩ := mem_flatMap.1 h
  have hcd : c = d := by
    split_ifs at hmem
    · simpa using hmem
    · simpa using hmem
  exact hcd ▸ hd

theorem javaGetUtf8String_utf8At (h : Represents i f) (hf : f.WellFormed) {index : UInt16}
    {bytes : Mem} (hutf8 : f.utf8At index = some bytes) :
    javaGetUtf8String i index = some bytes := by
  rw [ClassFile.utf8At] at hutf8
  split_ifs at hutf8 with hzero
  · have hplace : (places f.constants)[index.toNat - 1]? = some (some (.utf8 bytes)) := by
      rcases hget : (places f.constants)[index.toNat - 1]? with _ | _ | _ | _ <;>
        simp_all
    obtain ⟨entry, hentry, rest, rfl⟩ := h.pool.get hplace
    have hlen : bytes.length ≤ 65532 :=
      hf.constants _ (mem_of_places (mem_of_getElem? hplace))
    have hcount : (UInt16.ofNat bytes.length).toNat = bytes.length :=
      UInt16.toNat_ofNat_of_lt' (show _ < 2 ^ 16 by omega)
    rw [javaGetUtf8String, if_neg hzero, hentry]
    simp [Constant.encode, hcount, memcpy_append]

theorem next16_attribute (a : Attribute) (rest : Mem) : next16 (a.encode ++ rest) =
    some (a.nameIndex, be32 (UInt32.ofNat a.info.length) ++ a.info ++ rest) := by
  rw [Attribute.encode, append_assoc, append_assoc, next16_be16, append_assoc]

variable {a : Attribute}

theorem findCode_encode (h : Represents i f) (hf : f.WellFormed) {rest : Mem}
    (hpre : ∀ b ∈ pre, (f.utf8At b.nameIndex).isSome ∧ f.isCode b = false) (ha : f.isCode a = true)
    (hlen : (pre.flatMap Attribute.encode).length + a.encode.length < 2 ^ 32) (n : ℕ) :
    findCode i (pre.length + 1 + n) (pre.flatMap Attribute.encode ++ (a.encode ++ rest)) =
      some (pre.flatMap Attribute.encode).length := by
  induction pre with
  | nil =>
    obtain ⟨size, hsize, -⟩ := sized_attribute (a := a) (by omega) rest
    rw [ClassFile.isCode] at ha
    rcases hname : f.utf8At a.nameIndex with _ | name
    · rw [hname] at ha
      cases ha
    · rw [hname] at ha
      have hcode : name.takeWhile (· ≠ 0) = codeName := of_decide_eq_true ha
      rw [flatMap_nil, nil_append, length_nil, Nat.zero_add, Nat.add_comm, findCode,
        next16_attribute, hsize]
      dsimp only [bind_eq_bind, bind_some]
      rw [javaGetUtf8String_utf8At h hf hname]
      dsimp only [bind_some]
      rw [if_pos hcode]
      rfl
  | cons b pre ih =>
    rw [flatMap_cons, length_append] at hlen
    obtain ⟨hname, hnot⟩ := hpre b (mem_cons_self ..)
    obtain ⟨name, hname⟩ := isSome_iff_exists.1 hname
    rw [ClassFile.isCode, hname] at hnot
    have hcode : ¬ name.takeWhile (· ≠ 0) = codeName := of_decide_eq_false hnot
    have hrest := ih (forall_mem_cons.1 hpre).2 (by omega)
    generalize htail : pre.flatMap Attribute.encode ++ (a.encode ++ rest) = tail at hrest
    obtain ⟨size, hsize, hsizeLen⟩ := sized_attribute (a := b) (by omega) tail
    have hfuel : (b :: pre).length + 1 + n = pre.length + 1 + n + 1 := by
      rw [length_cons]
      omega
    rw [flatMap_cons, append_assoc, htail, hfuel, findCode, next16_attribute, hsize]
    dsimp only [bind_eq_bind, bind_some]
    rw [javaGetUtf8String_utf8At h hf hname]
    dsimp only [bind_some]
    rw [if_neg hcode, hsizeLen, drop_left, hrest, length_append]
    rfl

theorem inject_eq (hhead : head.length = 4) :
    inject code (head ++ (be32 codeLen ++ body)) = head ++ (be32 codeLen ++
      (code ++ (replicate (codeLen.toNat - 1) 0 ++ body.drop (codeLen.toNat - 1)).drop
        code.length)) := by
  have htake : (head ++ (be32 codeLen ++ body)).take 8 = head ++ be32 codeLen := by
    rw [← append_assoc]
    exact take_left' (by rw [length_append, hhead, length_be32])
  rw [inject, drop_left' hhead, next32_be32, htake]
  dsimp only
  rw [append_assoc]

theorem overwrite_code {a tail : Mem} {place : ℕ} (ha : a.length = place)
    (hpos : 0 < codeLen.toNat) (hbody : codeLen.toNat ≤ body.length)
    (hcode : code.length ≤ codeLen.toNat) :
    (do
      let method ← overwrite (a ++ (body ++ tail)) place (replicate (codeLen - 1).toNat 0)
      overwrite method place code) = some (a ++ ((code ++ (replicate (codeLen.toNat - 1) 0 ++
      body.drop (codeLen.toNat - 1)).drop code.length) ++ tail)) := by
  have hsub : (codeLen - 1).toNat = codeLen.toNat - 1 :=
    UInt32.toNat_sub_of_le _ _ (UInt32.le_iff_toNat_le.2 hpos)
  have hzeros : (replicate (codeLen.toNat - 1) (0 : UInt8)).length = codeLen.toNat - 1 :=
    length_replicate
  rw [hsub, overwrite_at ha (by rw [hzeros, length_append]; omega), hzeros,
    drop_append_of_le_length (by omega), ← append_assoc (replicate _ _)]
  dsimp only [bind_eq_bind, bind_some]
  have hfits : code.length ≤ (replicate (codeLen.toNat - 1) (0 : UInt8) ++
      body.drop (codeLen.toNat - 1)).length := by
    rw [length_append, hzeros, length_drop]
    omega
  rw [overwrite_at ha, drop_append_of_le_length hfits, append_assoc]
  rw [length_append]
  exact Nat.le_trans hfits (Nat.le_add_right _ _)

theorem modify_findIdx {α : Type} {c : α → Bool} {pre post : List α} {a : α}
    (hpre : ∀ b ∈ pre, c b = false) (ha : c a = true) (g : α → α) :
    (pre ++ a :: post).modify ((pre ++ a :: post).findIdx c) g = pre ++ g a :: post := by
  induction pre with
  | nil => simp [findIdx_cons, ha]
  | cons b pre ih =>
    rw [forall_mem_cons] at hpre
    simp [findIdx_cons, hpre.1, ih hpre.2]

def beforeCode (m : Member) (count : ℕ) (pre : List Attribute) (nameIndex : UInt16) (size : ℕ)
    (head : Mem) : Mem :=
  be16 m.accessFlags ++
    (be16 m.nameIndex ++ (be16 m.descriptorIndex ++ (be16 (UInt16.ofNat count) ++
    (pre.flatMap Attribute.encode ++ (be16 nameIndex ++ (be32 (UInt32.ofNat size) ++ head))))))

theorem length_beforeCode (m : Member) (count : ℕ) (pre : List Attribute) (nameIndex : UInt16)
    (size : ℕ) (hhead : head.length = 4) : (beforeCode m count pre nameIndex size head).length =
      8 + (pre.flatMap Attribute.encode).length + 10 := by
  simp only [beforeCode, length_append, length_be16, length_be32, hhead]
  omega

theorem encode_beforeCode (hattributes : m.attributes = pre ++ a :: post)
    (hinfo : a.info = head ++ (be32 codeLen ++ body)) (rest : Mem) : m.encode ++ rest =
      beforeCode m (pre.length + 1 + post.length) pre a.nameIndex (head.length + 4 + body.length)
        head ++ (be32 codeLen ++ (body ++ (post.flatMap Attribute.encode ++ rest))) := by
  have hcount : m.attributes.length = pre.length + 1 + post.length := by
    rw [hattributes, length_append, length_cons]
    omega
  have hsize : a.info.length = head.length + 4 + body.length := by
    rw [hinfo, length_append, length_append, length_be32]
    omega
  rw [m.encode_eq, hcount, hattributes]
  simp only [beforeCode, flatMap_append, flatMap_cons, Attribute.encode, hsize, append_assoc]
  rw [hinfo]
  simp

theorem getCodeAttributeAddress_encode (h : Represents i f) (hf : f.WellFormed)
    (hattributes : m.attributes = pre ++ a :: post)
    (hcount : m.attributes.length < 2 ^ 16) (hlen : m.encode.length < 2 ^ 32)
    (hpre : ∀ b ∈ pre, (f.utf8At b.nameIndex).isSome ∧ f.isCode b = false)
    (ha : f.isCode a = true) (rest : Mem) : getCodeAttributeAddress i (m.encode ++ rest) =
      some (8 + (pre.flatMap Attribute.encode).length) := by
  have hsplit := m.encode_eq
  have hdrop : (m.encode ++ rest).drop 6 = be16 (UInt16.ofNat m.attributes.length) ++
      (m.attributes.flatMap Attribute.encode ++ rest) := by
    have h6 : (6 : ℕ) = 2 + (2 + 2) := rfl
    rw [hsplit, h6, ← drop_drop, ← drop_drop]
    simp
  have hfuel : m.attributes.length = pre.length + 1 + post.length := by
    rw [hattributes, length_append, length_cons]
    omega
  have hbytes : m.attributes.flatMap Attribute.encode ++ rest =
      pre.flatMap Attribute.encode ++ (a.encode ++ (post.flatMap Attribute.encode ++ rest)) := by
    rw [hattributes, flatMap_append, flatMap_cons, append_assoc, append_assoc]
  have hle : (pre.flatMap Attribute.encode).length + a.encode.length < 2 ^ 32 := by
    rw [hsplit, hattributes] at hlen
    simp only [flatMap_append, flatMap_cons, length_append] at hlen
    omega
  rw [getCodeAttributeAddress, hdrop, next16_be16]
  dsimp only [bind_eq_bind, bind_some]
  rw [UInt16.toNat_ofNat_of_lt' hcount, hfuel, hbytes, findCode_encode h hf hpre ha hle]
  rfl

/-- **The code is written where the abstract edit puts it**, and nothing moves. -/
theorem javaInjectCode_encode (h : Represents i f) (hf : f.WellFormed)
    (hm : f.methods[k]? = some m) (hinject : Injectable f code m) (rest : Mem) :
    javaInjectCode i (m.encode ++ rest) code = some ((f.injectMember code m).encode ++ rest) ∧
      (f.injectMember code m).encode.length = m.encode.length := by
  obtain ⟨pre, a, post, head, codeLen, body, hattributes, hpre, ha, hinfo, hhead, hpos, hbody,
    hcode⟩ := hinject
  have hmem : m ∈ f.methods := mem_of_getElem? hm
  have hcount : m.attributes.length < 2 ^ 16 := hf.members m (mem_append_right _ hmem)
  have hlen : m.encode.length < 2 ^ 32 := by
    rw [← (javaGetMethodLength_encode hf hm []).2]
    exact UInt32.toNat_lt _
  have haddress := getCodeAttributeAddress_encode h hf hattributes hcount hlen hpre ha rest
  have hmodify : (f.injectMember code m).attributes =
      pre ++ { a with info := inject code a.info } :: post := by
    rw [ClassFile.injectMember]
    rw [hattributes, modify_findIdx (fun b hb => (hpre b hb).2) ha]
  have hsame : (code ++ (replicate (codeLen.toNat - 1) 0 ++
      body.drop (codeLen.toNat - 1)).drop code.length).length = body.length := by
    simp only [length_append, length_drop, length_replicate]
    omega
  -- the two methods differ in the code only
  have hold := encode_beforeCode hattributes hinfo
  have hnew := encode_beforeCode hmodify (hinfo ▸ inject_eq hhead)
  simp only [hsame] at hnew
  have hplace := length_beforeCode m (pre.length + 1 + post.length) pre a.nameIndex
    (head.length + 4 + body.length) hhead
  refine ⟨?_, ?_⟩
  · rw [javaInjectCode, haddress]
    dsimp only [bind_eq_bind, bind_some]
    rw [hold, drop_left' hplace, next32_be32]
    dsimp only [bind_some]
    rw [hnew, ← append_assoc, ← append_assoc _ (be32 codeLen)]
    exact overwrite_code (by rw [length_append, hplace, length_be32]) hpos hbody hcode
  · have hlengths := congrArg length (hold [])
    have hlengths' := congrArg length (hnew [])
    rw [append_nil] at hlengths hlengths'
    rw [hlengths, hlengths']
    simp only [length_append, ← hsame]
    rfl

theorem edit_injectCode (h : Tracks i f missing p q r) (hf : f.WellFormed)
    (hm : f.methods[k]? = some m) (hinject : Injectable f code m) :
    Edited i f (.injectCode k code) missing p q r := by
  obtain ⟨rest, hmethod⟩ := h.methodAt hm
  obtain ⟨hbytes, hlength⟩ := javaInjectCode_encode h.represents hf hm hinject rest
  obtain ⟨table, hset, htracks⟩ := h.setMethod hm ⟨rest, rfl⟩
  rw [hlength, UInt32.sub_self, UInt32.add_zero] at htracks
  refine ⟨_, ?_, by simpa [ClassFile.edit, hm] using htracks⟩
  rw [JavaClass.edit, hmethod]
  dsimp only [bind_eq_bind, bind_some]
  rw [hbytes]
  dsimp only [bind_some]
  rw [hset]
  rfl

/-! ## Any number of edits -/

/-- **Every proper edit is made, and the class keeps standing for the edited file.** -/
theorem Tracks.edit {e : Edit}
    (h : Tracks i f missing (p + e.constants) (q + e.fields) (r + e.methods)) (hf : f.WellFormed)
    (he : Proper f e) : Edited i f e (missing + UInt32.ofNat e.missing) p q r := by
  obtain ⟨happlies, hedited⟩ := he
  have hpool := hedited.pool
  have hzero : missing + UInt32.ofNat 0 = missing := UInt32.add_zero missing
  cases e with
  | addString str =>
    rw [ClassFile.edit, length_places_add _ rfl, length_places_add f rfl] at hpool
    exact edit_addString h hpool
  | addNameAndType name desc =>
    rw [ClassFile.edit, length_places_add _ rfl, length_places_add _ rfl,
      length_places_add f rfl] at hpool
    simp only [Edit.missing, hzero]
    exact edit_addNameAndType h hpool
  | addMethodRef classIndex natIndex =>
    rw [ClassFile.edit, length_places_add f rfl] at hpool
    simp only [Edit.missing, hzero]
    exact edit_addMethodRef h hpool
  | addField name descriptor accessFlags =>
    have hcount := hedited.fields
    rw [ClassFile.edit, ClassFile.addField, length_places_add _ rfl,
      length_places_add f rfl] at hpool
    rw [ClassFile.edit, ClassFile.addField, length_append] at hcount
    simp only [Edit.missing, hzero]
    exact edit_addField h hpool hcount
  | addMethod name descriptor accessFlags maxStack maxLocals code =>
    have hcount := hedited.methods
    simp only [Edit.missing, hzero]
    cases code with
    | none =>
      rw [ClassFile.edit, ClassFile.addMethod, length_places_add _ rfl,
        length_places_add f rfl] at hpool
      rw [ClassFile.edit, ClassFile.addMethod, length_append] at hcount
      exact edit_addMethod_bare h hpool hcount
    | some code =>
      rw [ClassFile.edit, ClassFile.addMethod, length_places_add _ rfl, length_places_add _ rfl,
        length_places_add f rfl] at hpool
      rw [ClassFile.edit, ClassFile.addMethod, length_append] at hcount
      exact edit_addMethod_code h hpool hcount
  | copyMethod k newName =>
    obtain ⟨m, hm⟩ : ∃ m, f.methods[k]? = some m := ⟨_, getElem?_eq_getElem happlies⟩
    have hcount := hedited.methods
    simp only [ClassFile.edit, hm, ClassFile.addMethod] at hpool hcount
    rw [length_places_add f rfl] at hpool
    rw [length_append] at hcount
    simp only [Edit.missing, hzero]
    exact edit_copyMethod h hf hm hpool hcount
  | convertMethodToNative k =>
    simp only [Edit.missing, hzero]
    exact edit_convertMethodToNative h hf (getElem?_eq_getElem happlies)
  | injectCode k code =>
    obtain ⟨m, hm, hinject⟩ := happlies
    simp only [Edit.missing, hzero]
    exact edit_injectCode h hf hm hinject

end Each

def JavaClass.edits (info : JavaClass) (es : List Edit) : Option JavaClass :=
  es.foldlM JavaClass.edit info

def ClassFile.edits (f : ClassFile) (es : List Edit) : ClassFile := es.foldl ClassFile.edit f

def ProperEdits (f : ClassFile) (es : List Edit) : Prop :=
  Along (fun f e => (f.edit e, ())) Proper f es

theorem Tracks.edits {i : JavaClass} {f : ClassFile} {missing : UInt32} {p q r : ℕ}
    {es : List Edit} (h : Tracks i f missing (p + (es.map Edit.constants).sum)
      (q + (es.map Edit.fields).sum) (r + (es.map Edit.methods).sum)) (hf : f.WellFormed)
    (hes : ProperEdits f es) : ∃ i', i.edits es = some i' ∧ (f.edits es).WellFormed ∧
      Tracks i' (f.edits es) (missing + UInt32.ofNat (es.map Edit.missing).sum) p q r := by
  induction es generalizing i f missing with
  | nil => exact ⟨i, rfl, hf, by simpa [ClassFile.edits] using h⟩
  | cons e es ih =>
    simp only [map_cons, sum_cons] at h ⊢
    rw [Nat.add_comm e.constants, Nat.add_comm e.fields, Nat.add_comm e.methods, ← Nat.add_assoc,
      ← Nat.add_assoc, ← Nat.add_assoc] at h
    obtain ⟨i₁, hedit, h₁⟩ := h.edit hf hes.1
    obtain ⟨i₂, hedits, hwf, h₂⟩ := ih h₁ hes.1.2 hes.2
    refine ⟨i₂, ?_, hwf, ?_⟩
    · rw [JavaClass.edits, foldlM_cons, hedit]
      exact hedits
    · rwa [UInt32.add_assoc, ← UInt32.ofNat_add] at h₂

theorem missing_le (es : List Edit) :
    (es.map Edit.missing).sum ≤ 2 * (es.map Edit.constants).sum := by
  induction es with
  | nil => exact Nat.le_refl 0
  | cons e es ih =>
    have he : e.missing ≤ 2 * e.constants := by
      cases e <;> simp [Edit.missing, Edit.constants]
    simp only [map_cons, sum_cons]
    omega

theorem missing_eq_zero (es : List Edit) :
    (es.map Edit.missing).sum = 0 ↔ ∀ str, Edit.addString str ∉ es := by
  rw [List.sum_eq_zero_iff_forall_eq_nat]
  constructor
  · intro h str hmem
    exact Nat.succ_ne_zero 2 (h _ (mem_map_of_mem hmem))
  · intro h n hn
    obtain ⟨e, he, rfl⟩ := mem_map.1 hn
    cases e with
    | addString str => exact absurd he (h str)
    | _ => rfl

/-- **The recorded length of an edited class is that of the bytes that are written, and these
are read back as the edited class, exactly if no string was added.** -/
theorem java_edits (f : ClassFile) (hf : f.WellFormed) (es : List Edit) (hes : ProperEdits f es)
    (hconstants : (es.map Edit.constants).sum ≤ 100) (hfields : (es.map Edit.fields).sum ≤ 100)
    (hmethods : (es.map Edit.methods).sum ≤ 100) :
    ∃ i i', javaReadClass f.encode = some i ∧ i.edits es = some i' ∧
      javaWriteClass i' = some (f.edits es).encode ∧
      ((i'.length.toNat = (f.edits es).encode.length ∧
          ∃ back, javaReadClass (f.edits es).encode = some back ∧ Represents back (f.edits es)) ↔
        ∀ str, Edit.addString str ∉ es) := by
  obtain ⟨i, hread, hrepresents, hlength, hpool, hfieldsLength, hmethodsLength⟩ :=
    javaReadClass_encode hf
  have hstart : Tracks i f 0 (0 + (es.map Edit.constants).sum) (0 + (es.map Edit.fields).sum)
      (0 + (es.map Edit.methods).sum) := by
    refine ⟨hrepresents, ?_, ?_, ?_, ?_⟩
    · rw [UInt32.add_zero, ← hlength, UInt32.ofNat_toNat]
    · omega
    · omega
    · omega
  obtain ⟨i', hedits, hedited, htracks⟩ := hstart.edits hf hes
  obtain ⟨back, hback, hbackRepresents, -⟩ := javaReadClass_encode hedited
  refine ⟨i, i', hread, hedits, javaWriteClass_represents hedited htracks.represents, ?_⟩
  have hmissing := missing_le es
  have hsize := hedited.size
  have hrecorded := congrArg UInt32.toNat htracks.length
  rw [UInt32.zero_add, UInt32.toNat_add, UInt32.toNat_ofNat_of_lt' (show _ < 2 ^ 32 by omega),
    UInt32.toNat_ofNat_of_lt' (show _ < 2 ^ 32 by omega)] at hrecorded
  have hsmall := i'.length.toNat_lt
  rw [← missing_eq_zero]
  constructor
  · rintro ⟨hlength', -⟩
    omega
  · intro hnone
    exact ⟨by omega, back, hback, hbackRepresents⟩

def smallEdits : List Edit := [.injectCode 0 [177], .addField [120] [73] 2]

theorem smallClass_injectable :
    Injectable smallClass [177] ⟨1, 3, 3, [⟨3, [0, 1, 0, 1, 0, 0, 0, 1, 177, 0, 0, 0, 0]⟩]⟩ :=
  ⟨[], ⟨3, [0, 1, 0, 1, 0, 0, 0, 1, 177, 0, 0, 0, 0]⟩, [], [0, 1, 0, 1], 1, [177, 0, 0, 0, 0],
    rfl, forall_mem_nil _, by decide, by decide, rfl, by decide, by decide, by decide⟩

theorem java_edits_small : ∃ i i', javaReadClass smallClass.encode = some i ∧
    i.edits smallEdits = some i' ∧
    javaWriteClass i' = some (smallClass.edits smallEdits).encode ∧
    ((i'.length.toNat = (smallClass.edits smallEdits).encode.length ∧
        ∃ back, javaReadClass (smallClass.edits smallEdits).encode = some back ∧
          Represents back (smallClass.edits smallEdits)) ↔
      ∀ str, Edit.addString str ∉ smallEdits) :=
  java_edits smallClass smallClass_wellFormed smallEdits
    ⟨⟨⟨_, rfl, smallClass_injectable⟩, by decide⟩, ⟨trivial, by decide⟩, trivial⟩ (by decide)
    (by decide) (by decide)

/-- With one string, three bytes more are written than the length says. -/
theorem java_edits_string : (do
      let i ← javaReadClass smallClass.encode
      let i' ← i.edits [.addString [104, 105]]
      let bytes ← javaWriteClass i'
      return (i'.length.toNat, bytes.length)) = some (74, 77) := by
  decide +kernel

end AppView.Java

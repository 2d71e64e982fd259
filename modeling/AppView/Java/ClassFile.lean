import AppView.Framework.BigEndian

/-!
# Class files

The format of a class file, down to the attributes, as the virtual machine specifies it: a
class file as a value (`ClassFile`) and its bytes (`ClassFile.encode`).
-/

namespace AppView.Java

open Framework

abbrev Mem : Type := List UInt8

def be16 (x : UInt16) : Mem := toBytes 2 x.toNat

def be32 (x : UInt32) : Mem := toBytes 4 x.toNat

@[simp] theorem length_be16 (x : UInt16) : (be16 x).length = 2 := length_toBytes ..

@[simp] theorem length_be32 (x : UInt32) : (be32 x).length = 4 := length_toBytes ..

/-! ## Constants -/

inductive Tag where
  | integer | float | long | double | classInfo | string | fieldref | methodref
  | interfaceMethodref | nameAndType | methodHandle | methodType | dynamic | invokeDynamic
  | module | package
  deriving DecidableEq

def Tag.code : Tag → UInt8
  | .integer => 3
  | .float => 4
  | .long => 5
  | .double => 6
  | .classInfo => 7
  | .string => 8
  | .fieldref => 9
  | .methodref => 10
  | .interfaceMethodref => 11
  | .nameAndType => 12
  | .methodHandle => 15
  | .methodType => 16
  | .dynamic => 17
  | .invokeDynamic => 18
  | .module => 19
  | .package => 20

def Tag.dataSize : Tag → ℕ
  | .long | .double => 8
  | .classInfo | .string | .methodType | .module | .package => 2
  | .methodHandle => 3
  | _ => 4

inductive Constant where
  | utf8 (bytes : Mem)
  | fixed (tag : Tag) (data : Mem)
  deriving DecidableEq

namespace Constant

def encode : Constant → Mem
  | .utf8 bytes => 1 :: be16 (UInt16.ofNat bytes.length) ++ bytes
  | .fixed tag data => tag.code :: data

def WellFormed : Constant → Prop
  | .utf8 bytes => bytes.length ≤ 65532
  | .fixed tag data => data.length = tag.dataSize

instance decidableWellFormed : (c : Constant) → Decidable c.WellFormed
  | .utf8 bytes => inferInstanceAs (Decidable (bytes.length ≤ 65532))
  | .fixed tag data => inferInstanceAs (Decidable (data.length = tag.dataSize))

def wide : Constant → Bool
  | .fixed .long _ | .fixed .double _ => true
  | _ => false

end Constant

def places (cs : List Constant) : List (Option Constant) :=
  cs.flatMap fun c => if c.wide then [some c, none] else [some c]

/-! ## Attributes, fields and methods -/

structure Attribute where
  nameIndex : UInt16
  info : Mem
  deriving DecidableEq

def Attribute.encode (a : Attribute) : Mem :=
  be16 a.nameIndex ++ be32 (UInt32.ofNat a.info.length) ++ a.info

def encodeTable {α : Type} (enc : α → Mem) (items : List α) : Mem :=
  be16 (UInt16.ofNat items.length) ++ items.flatMap enc

structure Member where
  accessFlags : UInt16
  nameIndex : UInt16
  descriptorIndex : UInt16
  attributes : List Attribute
  deriving DecidableEq

def Member.encode (m : Member) : Mem :=
  be16 m.accessFlags ++ be16 m.nameIndex ++ be16 m.descriptorIndex ++
    encodeTable Attribute.encode m.attributes

/-! ## Classes -/

structure ClassFile where
  minorVersion : UInt16
  majorVersion : UInt16
  constants : List Constant
  accessFlags : UInt16
  thisClass : UInt16
  superClass : UInt16
  interfaces : List UInt16
  fields : List Member
  methods : List Member
  attributes : List Attribute
  deriving DecidableEq

def magic : Mem := [0xca, 0xfe, 0xba, 0xbe]

def ClassFile.encode (f : ClassFile) : Mem :=
  magic ++ be16 f.minorVersion ++ be16 f.majorVersion ++
    be16 (UInt16.ofNat ((places f.constants).length + 1)) ++ f.constants.flatMap Constant.encode ++
    be16 f.accessFlags ++ be16 f.thisClass ++ be16 f.superClass ++
    encodeTable be16 f.interfaces ++ encodeTable Member.encode f.fields ++
    encodeTable Member.encode f.methods ++ encodeTable Attribute.encode f.attributes

def Member.WellFormed (m : Member) : Prop := m.attributes.length < 2 ^ 16

instance (m : Member) : Decidable m.WellFormed :=
  inferInstanceAs (Decidable (m.attributes.length < 2 ^ 16))

structure ClassFile.WellFormed (f : ClassFile) : Prop where
  constants : ∀ c ∈ f.constants, c.WellFormed
  pool : (places f.constants).length + 1 < 2 ^ 16
  interfaces : f.interfaces.length < 2 ^ 16
  fields : f.fields.length < 2 ^ 16
  methods : f.methods.length < 2 ^ 16
  attributes : f.attributes.length < 2 ^ 16
  members : ∀ m ∈ f.fields ++ f.methods, m.WellFormed
  size : f.encode.length < 2 ^ 31

instance (f : ClassFile) : Decidable f.WellFormed :=
  decidable_of_iff ((∀ c ∈ f.constants, c.WellFormed) ∧ (places f.constants).length + 1 < 2 ^ 16 ∧
    f.interfaces.length < 2 ^ 16 ∧ f.fields.length < 2 ^ 16 ∧ f.methods.length < 2 ^ 16 ∧
    f.attributes.length < 2 ^ 16 ∧ (∀ m ∈ f.fields ++ f.methods, m.WellFormed) ∧
    f.encode.length < 2 ^ 31)
    ⟨fun ⟨h₁, h₂, h₃, h₄, h₅, h₆, h₇, h₈⟩ => ⟨h₁, h₂, h₃, h₄, h₅, h₆, h₇, h₈⟩,
      fun h => ⟨h.1, h.2, h.3, h.4, h.5, h.6, h.7, h.8⟩⟩

end AppView.Java

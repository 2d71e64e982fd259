import AppView.Java.ClassFile

/-!
# Reading, writing and editing a class

The functions of `javabci.c`. A pointer is the memory from it to the end of its allocation, a
table of pointers is the allocated array with `none` for `NULL`.
-/

namespace AppView.Java

open Framework

/-! ## Memory -/

def next16 (off : Mem) : Option (UInt16 × Mem) :=
  (nextNumber 2 off).map fun r => (UInt16.ofNat r.1, r.2)

def next32 (off : Mem) : Option (UInt32 × Mem) :=
  (nextNumber 4 off).map fun r => (UInt32.ofNat r.1, r.2)

/-- No result where bytes outside of the memory would be read. -/
def memcpy (size : ℕ) (src : Mem) : Option Mem :=
  if size ≤ src.length then some (src.take size) else none

/-- No result where bytes outside of the memory would be written. -/
def overwrite (mem : Mem) (place : ℕ) (bytes : Mem) : Option Mem :=
  if place + bytes.length ≤ mem.length then
    some (mem.take place ++ bytes ++ mem.drop (place + bytes.length))
  else none

/-! ## Sizes -/

def cpTagSize : List ℕ :=
  [0, 0, 0, 5, 5, 9, 9, 3, 3, 5, 5, 5, 5, 0, 0, 4, 3, 5, 5, 3, 3]

/-- The size of an entry of the constant pool, from its tag; that of a string is in 16 bits. -/
def javaGetTagLength (addr : Mem) : Option UInt16 := do
  let tag ← addr.head?
  if tag = 1 then
    let (len, _) ← next16 (addr.drop 1)
    return len + 3
  else (cpTagSize[tag.toNat]?).map UInt16.ofNat

def attributeLength (off : Mem) : Option UInt32 :=
  (next32 (off.drop 2)).map fun r => r.1 + 6

def skipAttributes : ℕ → Mem → Option ℕ
  | 0, _ => some 0
  | n + 1, off => do
    let size ← attributeLength off
    let rest ← skipAttributes n (off.drop size.toNat)
    return size.toNat + rest

/-- The size of a list of attributes with its count. -/
def getAttributesLength (addr : Mem) : Option UInt32 := do
  let (attrCount, off) ← next16 addr
  let size ← skipAttributes attrCount.toNat off
  return UInt32.ofNat (2 + size)

/-- The size of a method, or of a field, which has the same layout. -/
def javaGetMethodLength (addr : Mem) : Option UInt32 :=
  (getAttributesLength (addr.drop 6)).map (· + 6)

/-! ## The class -/

structure JavaClass where
  minorVersion : UInt16
  majorVersion : UInt16
  constantPoolCount : UInt16
  constantPool : List (Option Mem)
  accessFlags : UInt16
  thisClass : UInt16
  superClass : UInt16
  interfacesCount : UInt16
  interfaces : Mem
  fieldsCount : UInt16
  fields : List (Option Mem)
  methodsCount : UInt16
  methods : List (Option Mem)
  attributesCount : UInt16
  attributes : List (Option Mem)
  length : UInt32

/-- A long or a double takes two places in the pool. -/
def wideTag (addr : Mem) : Bool := addr.head? = some 6 || addr.head? = some 5

/-! ## Reading -/

/-- The addresses of the constants; the second place of a wide one stays empty. -/
def readConstants : ℕ → Mem → Option (List (Option Mem) × ℕ)
  | 0, _ => some ([], 0)
  | 1, off => do
    let size ← javaGetTagLength off
    return ([some off], size.toNat)
  | n + 2, off => do
    let size ← javaGetTagLength off
    if wideTag off then
      let (pool, rest) ← readConstants n (off.drop size.toNat)
      return (some off :: none :: pool, size.toNat + rest)
    else
      let (pool, rest) ← readConstants (n + 1) (off.drop size.toNat)
      return (some off :: pool, size.toNat + rest)

/-- The addresses of fields, methods or attributes, and the bytes they take. -/
def readTable (length : Mem → Option UInt32) : ℕ → Mem → Option (List (Option Mem) × ℕ)
  | 0, _ => some ([], 0)
  | n + 1, off => do
    let size ← length off
    let (table, rest) ← readTable length n (off.drop size.toNat)
    return (some off :: table, size.toNat + rest)

def readCounted (length : Mem → Option UInt32) (off : Mem) :
    Option (UInt16 × List (Option Mem) × ℕ) := do
  let (count, off) ← next16 off
  let (table, size) ← readTable length count.toNat off
  return (count, table, 2 + size)

def spare : List (Option Mem) := List.replicate 100 none

/-- The tables hold addresses into the data, with room for more entries. -/
def javaReadClass (classData : Mem) : Option JavaClass :=
  if classData.take 4 = magic then do
    let (minorVersion, off) ← next16 (classData.drop 4)
    let (majorVersion, off) ← next16 off
    let (constantPoolCount, off) ← next16 off
    let (constantPool, poolSize) ← readConstants (constantPoolCount.toNat - 1) off
    let (accessFlags, off) ← next16 (off.drop poolSize)
    let (thisClass, off) ← next16 off
    let (superClass, off) ← next16 off
    let (interfacesCount, interfaces) ← next16 off
    let off := interfaces.drop (interfacesCount.toNat * 2)
    let (fieldsCount, fields, fieldsSize) ← readCounted javaGetMethodLength off
    let off := off.drop fieldsSize
    let (methodsCount, methods, methodsSize) ← readCounted javaGetMethodLength off
    let off := off.drop methodsSize
    let (attributesCount, attributes, attributesSize) ← readCounted attributeLength off
    return {
      minorVersion, majorVersion, constantPoolCount, constantPool := constantPool ++ spare
      accessFlags, thisClass, superClass, interfacesCount, interfaces
      fieldsCount, fields := fields ++ spare, methodsCount, methods := methods ++ spare
      attributesCount, attributes
      length := UInt32.ofNat (10 + poolSize + 8 + interfacesCount.toNat * 2 + fieldsSize +
        methodsSize + attributesSize) }
  else none

/-! ## Writing -/

def writeEntry (length : Mem → Option ℕ) (entry : Option Mem) : Option Mem := do
  let addr ← entry
  let size ← length addr
  memcpy size addr

def tagLength (addr : Mem) : Option ℕ := (javaGetTagLength addr).map UInt16.toNat

/-- The constants again, without the empty places. -/
def writeConstants : ℕ → List (Option Mem) → Option Mem
  | 0, _ => some []
  | 1, entry :: _ => writeEntry tagLength entry
  | n + 2, entry :: pool => do
    let bytes ← writeEntry tagLength entry
    let addr ← entry
    if wideTag addr then
      let rest ← writeConstants n (pool.drop 1)
      return bytes ++ rest
    else
      let rest ← writeConstants (n + 1) pool
      return bytes ++ rest
  | _ + 1, [] => none

def writeTable (length : Mem → Option UInt32) : ℕ → List (Option Mem) → Option Mem
  | 0, _ => some []
  | n + 1, entry :: table => do
    let bytes ← writeEntry (fun addr => (length addr).map UInt32.toNat) entry
    let rest ← writeTable length n table
    return bytes ++ rest
  | _ + 1, [] => none

/-- The class file that the tables stand for. -/
def javaWriteClass (info : JavaClass) : Option Mem := do
  let pool ← writeConstants (info.constantPoolCount.toNat - 1) info.constantPool
  let interfaces ← memcpy (info.interfacesCount.toNat * 2) info.interfaces
  let fields ← writeTable javaGetMethodLength info.fieldsCount.toNat info.fields
  let methods ← writeTable javaGetMethodLength info.methodsCount.toNat info.methods
  let attributes ← writeTable attributeLength info.attributesCount.toNat info.attributes
  return magic ++ be16 info.minorVersion ++ be16 info.majorVersion ++
    be16 info.constantPoolCount ++ pool ++
    be16 info.accessFlags ++ be16 info.thisClass ++ be16 info.superClass ++
    be16 info.interfacesCount ++ interfaces ++ be16 info.fieldsCount ++ fields ++
    be16 info.methodsCount ++ methods ++ be16 info.attributesCount ++ attributes

/-! ## Adding constants -/

/-- No result where the table has no such place. -/
def setEntry (table : List (Option Mem)) (idx : ℕ) (entry : Mem) : Option (List (Option Mem)) :=
  if idx < table.length then some (table.set idx (some entry)) else none

/-- A constant behind the last one; its index counts from 1. -/
def addTag (info : JavaClass) (tag : Mem) : Option (JavaClass × UInt16) := do
  let idx := info.constantPoolCount - 1
  let constantPool ← setEntry info.constantPool idx.toNat tag
  return ({ info with
    constantPoolCount := info.constantPoolCount + 1
    constantPool := constantPool }, idx + 1)

def addUtf8Tag (info : JavaClass) (str : Mem) : Option (JavaClass × UInt16) :=
  addTag { info with length := info.length + UInt32.ofNat (str.length + 3) }
    (1 :: be16 (UInt16.ofNat str.length) ++ str)

def javaAddNameAndTypeTag (info : JavaClass) (name desc : Mem) :
    Option (JavaClass × UInt16) := do
  let (info, nameIndex) ← addUtf8Tag info name
  let (info, descIndex) ← addUtf8Tag info desc
  addTag { info with length := info.length + 5 } (12 :: be16 nameIndex ++ be16 descIndex)

def javaAddMethodRefTag (info : JavaClass) (classIndex nameAndTypeIndex : UInt16) :
    Option (JavaClass × UInt16) :=
  addTag { info with length := info.length + 5 } (10 :: be16 classIndex ++ be16 nameAndTypeIndex)

/-- The constant itself is not counted in `length`, only its text is. -/
def javaAddStringTag (info : JavaClass) (str : Mem) : Option (JavaClass × UInt16) := do
  let (info, idx) ← addUtf8Tag info str
  addTag info (8 :: be16 idx)

/-! ## Adding and changing methods and fields -/

def addEntry (count : UInt16) (table : List (Option Mem)) (entry : Mem) :
    Option (UInt16 × List (Option Mem)) :=
  if count + 1 = 0 then none
  else (setEntry table ((count + 1).toNat - 1) entry).map (count + 1, ·)

def addMethodEntry (info : JavaClass) (entry : Mem) : Option JavaClass :=
  (addEntry info.methodsCount info.methods entry).map fun r =>
    { info with methodsCount := r.1, methods := r.2 }

def methodAt (info : JavaClass) (i : ℕ) : Option Mem := (info.methods[i]?).join

/-- A copy of a method under another name. -/
def javaCopyMethod (info : JavaClass) (method newName : Mem) : Option JavaClass := do
  let len ← javaGetMethodLength method
  let dest ← memcpy len.toNat method
  let (info, nameIndex) ← addUtf8Tag info newName
  let dest ← overwrite dest 2 (be16 nameIndex)
  let info ← addMethodEntry info dest
  return { info with length := info.length + len }

def accNative : UInt16 := 0x0100

/-- The method keeps its name and type, and loses its attributes. -/
def javaConvertMethodToNative (info : JavaClass) (methodIndex : ℕ) : Option JavaClass := do
  let methodAddr ← methodAt info methodIndex
  let len ← javaGetMethodLength methodAddr
  let addr ← memcpy 8 methodAddr
  let (accessFlags, _) ← next16 methodAddr
  let addr ← overwrite addr 0 (be16 (accessFlags ||| accNative))
  let addr ← overwrite addr 6 (be16 0)
  let methods ← setEntry info.methods methodIndex addr
  return { info with methods := methods, length := info.length + (8 - len) }

/-- The bytes of a method, with one `Code` attribute or none. -/
def newMethod (accessFlags nameIndex descriptorIndex maxStack maxLocals : UInt16)
    (code : Option (UInt16 × Mem)) : Mem :=
  be16 accessFlags ++ be16 nameIndex ++ be16 descriptorIndex ++
    match code with
    | none => be16 0
    | some (codeNameIndex, code) =>
      be16 1 ++ (be16 codeNameIndex ++ be32 (UInt32.ofNat (12 + code.length)) ++ be16 maxStack ++
        be16 maxLocals ++ be32 (UInt32.ofNat code.length) ++ code ++ be16 0 ++ be16 0)

def codeName : Mem := [67, 111, 100, 101]

/-- A new method behind the others. -/
def javaAddMethod (info : JavaClass) (name descriptor : Mem)
    (accessFlags maxStack maxLocals : UInt16) (code : Option Mem) : Option JavaClass := do
  let (info, nameIndex) ← addUtf8Tag info name
  let (info, descriptorIndex) ← addUtf8Tag info descriptor
  match code with
  | none =>
    let info ← addMethodEntry info
      (newMethod accessFlags nameIndex descriptorIndex maxStack maxLocals none)
    return { info with length := info.length + 8 }
  | some code =>
    let (info, codeNameIndex) ← addUtf8Tag info codeName
    let info ← addMethodEntry info
      (newMethod accessFlags nameIndex descriptorIndex maxStack maxLocals
        (some (codeNameIndex, code)))
    return { info with length := info.length + UInt32.ofNat (8 + 2 + 4 + (12 + code.length)) }

/-- A new field without attributes. -/
def javaAddField (info : JavaClass) (name descriptor : Mem) (accessFlags : UInt16) :
    Option JavaClass := do
  let (info, nameIndex) ← addUtf8Tag info name
  let (info, descriptorIndex) ← addUtf8Tag info descriptor
  let (fieldsCount, fields) ← addEntry info.fieldsCount info.fields
    (be16 accessFlags ++ be16 nameIndex ++ be16 descriptorIndex ++ be16 0)
  return { info with
    fieldsCount := fieldsCount
    fields := fields
    length := info.length + 8 }

/-- The text of a constant, by its index. -/
def javaGetUtf8String (info : JavaClass) (tagIndex : UInt16) : Option Mem := do
  let cp ← if tagIndex = 0 then none else (info.constantPool[tagIndex.toNat - 1]?).join
  let (len, bytes) ← next16 (cp.drop 1)
  memcpy len.toNat bytes

/-- The offset of the attribute called `Code` among these. -/
def findCode (info : JavaClass) : ℕ → Mem → Option ℕ
  | 0, _ => none
  | n + 1, off => do
    let (attrNameIndex, _) ← next16 off
    let size ← attributeLength off
    let attrName ← javaGetUtf8String info attrNameIndex
    -- `strcmp` sees the name up to its first NUL
    if attrName.takeWhile (· ≠ 0) = codeName then return 0
    else
      let rest ← findCode info n (off.drop size.toNat)
      return size.toNat + rest

def getCodeAttributeAddress (info : JavaClass) (method : Mem) : Option ℕ := do
  let (attributesCount, off) ← next16 (method.drop 6)
  let place ← findCode info attributesCount.toNat off
  return 8 + place

/-- The code of a method is cleared but for one byte, then the new code is put over it. -/
def javaInjectCode (info : JavaClass) (method code : Mem) : Option Mem := do
  let codeAttr ← getCodeAttributeAddress info method
  let (codeLen, _) ← next32 (method.drop (codeAttr + 10))
  let method ← overwrite method (codeAttr + 14) (List.replicate (codeLen - 1).toNat 0)
  overwrite method (codeAttr + 14) code

end AppView.Java

import AppView.Framework.IntObject

/-!
# Metrics as statsd lines

`mtcFormatStatsDString` prints a metric as `name:value|type`, then `|#` and the tags with
commas between them, then a newline. Tags come from the fields that were captured with the
metric, the configured tags and the metric's own fields, in this order; a name is used
once. Texts are lists of characters; they contain no NUL.
-/

namespace AppView.Statsd

open AppView.Framework

inductive DataType where
  | delta | current | deltaMs | histogram | set
  deriving DecidableEq, Repr

inductive FieldValue where
  | str (s : Option (List Char))
  | num (n : Int64)
  deriving DecidableEq

structure Field where
  name : List Char
  value : FieldValue
  cardinality : ℕ
  deriving DecidableEq

variable {δ : Type*}

inductive Value (δ : Type*) where
  | int (n : Int64)
  | flt (x : δ)
  deriving DecidableEq

structure Event (δ : Type*) where
  name : List Char
  value : Value δ
  type : DataType
  fields : List Field
  capturedFields : List Field
  deriving DecidableEq

structure MtcFmt where
  statsdPrefix : List Char
  maxLen : ℕ
  verbosity : ℕ
  tags : List (List Char × List Char)

def statsdType : DataType → List Char
  | .delta => ['c']
  | .current => ['g']
  | .deltaMs => ['m', 's']
  | .histogram => ['h']
  | .set => ['s']

def tagText (tag : List Char × List Char) : List Char := tag.1 ++ ':' :: tag.2

def FieldValue.text : FieldValue → Option (List Char)
  | .num n => some (decimal n.toInt)
  | .str s => s

/-- No tag for a field whose string is NULL. -/
def createStatsFieldString (f : Field) : Option (List Char) :=
  f.value.text.map fun v => tagText (f.name, v)

structure Line where
  text : List Char
  bytes : ℕ
  added : List (List Char)

/-- The tag is added as a whole or not at all; the separator depends on the names offered. -/
def appendStatsdFieldString (maxLen : ℕ) (tag : List Char) (line : Line) : Line :=
  if line.added.length = 1 then
    if line.bytes + (tag.length + 2) ≥ maxLen then line
    else { line with
      text := line.text ++ ['|', '#'] ++ tag.take maxLen
      bytes := line.bytes + (tag.length + 2) }
  else
    if line.bytes + (tag.length + 1) ≥ maxLen then line
    else { line with
      text := line.text ++ [','] ++ tag.take maxLen
      bytes := line.bytes + (tag.length + 1) }

local instance instLawfulBEqName : LawfulBEq (List Char) := inferInstance

/-- No result for a name that was offered before. -/
def strSetAdd (name : List Char) (line : Line) : Option Line :=
  if name ∈ line.added then none else some { line with added := line.added ++ [name] }

/-- The name is taken even where no tag is printed for it. -/
def addStatsdField (fmt : MtcFmt) (fieldFilter : Option (List Char → Bool)) (line : Line)
    (f : Field) : Line :=
  if fieldFilter.any (fun re => !re f.name) then line
  else if f.cardinality > fmt.verbosity then line
  else
    match strSetAdd f.name line with
    | none => line
    | some line =>
      match createStatsFieldString f with
      | none => line
      | some tag => appendStatsdFieldString fmt.maxLen tag line

def addStatsdFields (fmt : MtcFmt) (fieldFilter : Option (List Char → Bool))
    (fields : List Field) (line : Line) : Line :=
  fields.foldl (addStatsdField fmt fieldFilter) line

def addStatsdCustomField (fmt : MtcFmt) (line : Line) (tag : List Char × List Char) : Line :=
  match strSetAdd tag.1 line with
  | none => line
  | some line => appendStatsdFieldString fmt.maxLen (tagText tag) line

def addStatsdCustomFields (fmt : MtcFmt) (line : Line) : Line :=
  fmt.tags.foldl (addStatsdCustomField fmt) line

def valueText (printFlt : δ → List Char) : Value δ → List Char
  | .int n => decimal n.toInt
  | .flt x => printFlt x

def lineHead (printFlt : δ → List Char) (fmt : MtcFmt) (e : Event δ) : List Char :=
  fmt.statsdPrefix ++ e.name ++ ':' :: (valueText printFlt e.value ++ '|' :: statsdType e.type)

/-- NULL if the head of the line does not fit. -/
def mtcFormatStatsDString (printFlt : δ → List Char) (fmt : MtcFmt) (e : Event δ)
    (fieldFilter : Option (List Char → Bool)) : Option (List Char) :=
  let head := lineHead printFlt fmt e
  if head.length ≥ fmt.maxLen then none
  else
    let line : Line := ⟨head, head.length, []⟩
    let line := addStatsdFields fmt none e.capturedFields line
    let line := addStatsdCustomFields fmt line
    let line := addStatsdFields fmt fieldFilter e.fields line
    some (line.text ++ ['\n'])

end AppView.Statsd

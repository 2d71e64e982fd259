import AppView.Framework.Pattern
import AppView.Statsd.Format

/-!
# Capturing statsd lines

A buffer that the application sends is matched against two regular expressions, first the one
with tags, and a metric that is found in it is reported again with the tags as its captured
fields.
-/

namespace AppView.Statsd

open AppView.Framework Pattern

/-! ## Matching -/

def atEnd (rest : List Char) : Bool := rest = [] || rest = ['\n']

def isNumeric (c : Char) : Bool := c.isDigit || c = '.'

def typePattern : Pattern Char := .group (.anyWord [['c'], ['g'], ['m', 's'], ['s'], ['h']])

def metricPattern (tail : List (Pattern Char)) : Pattern Char :=
  .seqAll ([.group (.run (· ≠ ':')), .word [':'], .group (.run isNumeric), .word ['|'],
    typePattern] ++ tail)

def statsdPattern : Pattern Char := metricPattern []

def dimsPattern : Pattern Char := .group (.seq (.word ['#']) (.run (· ≠ '$')))

def statsdExtPattern : Pattern Char := .seq (metricPattern [.word ['|']]) dimsPattern

structure CapturedMetric where
  name : List Char
  value : List Char
  type : List Char
  dims : Option (List Char)
  deriving DecidableEq

def doMetricBuffer (buf : List Char) : Option CapturedMetric :=
  match first atEnd statsdExtPattern buf with
  | some ([name, value, type, dims], _) => some ⟨name, value, type, some dims⟩
  | _ =>
    match first atEnd statsdPattern buf with
    | some ([name, value, type], _) => some ⟨name, value, type, none⟩
    | _ => none

/-! ## Reporting -/

def typeFromStr (s : List Char) : DataType :=
  if s = ['c'] then .delta
  else if s = ['g'] then .current
  else if s = ['m', 's'] then .deltaMs
  else if s = ['s'] then .set
  else if s = ['h'] then .histogram
  else .current

def strchr (c : Char) : List Char → Option (List Char × List Char)
  | [] => none
  | d :: s => if d = c then some ([], s) else (strchr c s).map fun x => (d :: x.1, x.2)

theorem length_of_strchr {c : Char} {s x y : List Char} (h : strchr c s = some (x, y)) :
    y.length < s.length := by
  induction s generalizing x with
  | nil => cases h
  | cons d s ih =>
    rw [strchr] at h
    split_ifs at h
    · cases h
      exact Nat.lt_succ_self _
    · obtain ⟨z, hz, hxy⟩ := Option.map_eq_some_iff.1 h
      cases hxy
      exact Nat.lt_succ_of_lt (ih hz)

def dimPairs (dims : List Char) : List (List Char × List Char) :=
  match _hval : strchr ':' dims with
  | none => []
  | some (fieldname, fieldval) =>
    match _hnext : strchr ',' fieldval with
    | none => [(fieldname, fieldval)]
    | some (fieldval, dims) => (fieldname, fieldval) :: dimPairs dims
termination_by dims.length
decreasing_by exact (length_of_strchr _hnext).trans (length_of_strchr _hval)

def httpMaxFields : ℕ := 30

def createFieldsForCapturedMetrics (alldims : Option (List Char)) : List Field :=
  let pairs := match alldims with
    | some ('#' :: dims) => dimPairs dims
    | _ => []
  (pairs.take (httpMaxFields - 1)).map fun p => ⟨p.1, .str (some p.2), 0⟩

def strtoll (s : List Char) : Option Int64 :=
  match readNat s with
  | some (n, _) => if n < 2 ^ 63 then some (Int64.ofNat n) else none
  | none => none

/-! ## Scattered writes -/

section Scattered

variable (room : ℕ) (captured : List CapturedMetric)

/-- A metric that is found goes to the ring buffer, if there is room. -/
def captureBuffer (buf : List Char) : Bool × List CapturedMetric :=
  match doMetricBuffer buf with
  | some metric =>
    if captured.length < room then (true, captured ++ [metric]) else (false, captured)
  | none => (false, captured)

/-- An entry of an iovec; `none` is a NULL base. -/
def captureEntry (r : Bool × List CapturedMetric) :
    Option (List Char) → Bool × List CapturedMetric
  | some (c :: cs) => if r.1 then r else captureBuffer room r.2 (c :: cs)
  | _ => r

inductive SrcData where
  | buf (bytes : List Char)
  | vectors (iov : List (Option (List Char)))
  | none

def doMetricCapture : SrcData → Bool × List CapturedMetric
  | .buf bytes => captureBuffer room captured bytes
  | .vectors iov => iov.foldl (captureEntry room) (false, captured)
  | .none => (false, captured)

def captureEach (iov : List (Option (List Char))) : List CapturedMetric :=
  iov.foldl (fun captured entry => (captureBuffer room captured (entry.getD [])).2) captured

def holdsMetric (entry : Option (List Char)) : Bool := (doMetricBuffer (entry.getD [])).isSome

variable {room captured} {entry : Option (List Char)} {iov : List (Option (List Char))}

theorem captureEntry_false :
    captureEntry room (false, captured) entry = captureBuffer room captured (entry.getD []) := by
  rcases entry with _ | _ | ⟨c, cs⟩ <;> rfl

/-- A call of `doMetricBuffer` finds no metric, finds the buffer full, or adds one. -/
theorem captureBuffer_cases (room : ℕ) (captured : List CapturedMetric)
    (entry : Option (List Char)) :
    (holdsMetric entry = false ∨ room ≤ captured.length) ∧
        captureBuffer room captured (entry.getD []) = (false, captured) ∨
      holdsMetric entry = true ∧ captured.length < room ∧
        ∃ metric, captureBuffer room captured (entry.getD []) = (true, captured ++ [metric]) := by
  rw [captureBuffer, holdsMetric]
  cases doMetricBuffer (entry.getD []) with
  | none => exact .inl ⟨.inl rfl, rfl⟩
  | some metric =>
    dsimp only
    split_ifs with hroom
    · exact .inr ⟨rfl, hroom, metric, rfl⟩
    · exact .inl ⟨.inr (not_lt.1 hroom), rfl⟩

theorem captureEach_cons : captureEach room captured (entry :: iov) =
    captureEach room (captureBuffer room captured (entry.getD [])).2 iov :=
  rfl

/-- Called for each entry, it adds a metric for each that holds one, while there is room. -/
theorem length_captureEach (room : ℕ) (captured : List CapturedMetric)
    (iov : List (Option (List Char))) : (captureEach room captured iov).length =
      captured.length + min (iov.countP holdsMetric) (room - captured.length) := by
  induction iov generalizing captured with
  | nil => simp [captureEach]
  | cons entry iov ih =>
    rw [captureEach_cons, ih, List.countP_cons]
    rcases captureBuffer_cases room captured entry with ⟨hnone, heq⟩ | ⟨hholds, hroom, m, heq⟩
    · rw [heq]
      rcases hnone with hnone | hfull
      · simp [hnone]
      · simp [Nat.sub_eq_zero_of_le hfull]
    · rw [heq, if_pos hholds, List.length_append, List.length_singleton]
      omega

theorem captureEach_of_length (h : iov.countP holdsMetric = 0 ∨ room ≤ captured.length) :
    captureEach room captured iov = captured := by
  induction iov with
  | nil => rfl
  | cons entry iov ih =>
    rw [List.countP_cons] at h
    rw [captureEach_cons]
    rcases captureBuffer_cases room captured entry with ⟨-, heq⟩ | ⟨hholds, hroom, -⟩
    · rw [heq]
      exact ih (h.imp_left fun h0 => Nat.eq_zero_of_add_eq_zero_right h0)
    · rw [if_pos hholds] at h
      omega

theorem foldl_captureEntry_true (iov : List (Option (List Char))) (r : List CapturedMetric) :
    iov.foldl (captureEntry room) (true, r) = (true, r) := by
  induction iov with
  | nil => rfl
  | cons entry iov ih =>
    have hstep : captureEntry room (true, r) entry = (true, r) := by
      rcases entry with _ | _ | ⟨c, cs⟩ <;> rfl
    rw [List.foldl_cons, hstep, ih]

/-- **Every entry is captured** exactly if at most one of them holds a metric, or there is room for
no more than one: the loop stops at the first success. -/
theorem scattered_capture (room : ℕ) (captured : List CapturedMetric)
    (iov : List (Option (List Char))) :
    (doMetricCapture room captured (.vectors iov)).2 = captureEach room captured iov ↔
      iov.countP holdsMetric ≤ 1 ∨ room ≤ captured.length + 1 := by
  show (iov.foldl (captureEntry room) (false, captured)).2 = _ ↔ _
  induction iov with
  | nil => simp [captureEach]
  | cons entry iov ih =>
    rw [captureEach_cons, List.foldl_cons, captureEntry_false, List.countP_cons]
    rcases captureBuffer_cases room captured entry with ⟨hnone, heq⟩ | ⟨hholds, hroom, m, heq⟩
    · rw [heq, ih]
      rcases hnone with hnone | hfull
      · simp [hnone]
      · exact iff_of_true (.inr (by omega)) (.inr (by omega))
    · -- the loop stops here; the calls go on
      rw [heq, foldl_captureEntry_true, if_pos hholds]
      constructor
      · intro hsame
        have hlen := congrArg List.length hsame
        rw [length_captureEach, List.length_append, List.length_singleton] at hlen
        omega
      · intro hfew
        refine (captureEach_of_length ?_).symm
        rw [List.length_append, List.length_singleton]
        omega

/-- The second of two metrics is lost. -/
theorem scattered_capture_two :
    (doMetricCapture 9 [] (.vectors [some "a:1|c".toList, some "b:2|c".toList])).2.length = 1 ∧
      (captureEach 9 [] [some "a:1|c".toList, some "b:2|c".toList]).length = 2 := by
  decide +kernel

end Scattered

variable {δ : Type*}

def reportCapturedMetric (strtod : List Char → Option δ) (builtIn : List Field)
    (metric : CapturedMetric) : Option (Event δ) :=
  let value : Option (Value δ) :=
    if '.' ∈ metric.value ∨ ',' ∈ metric.value then (strtod metric.value).map .flt
    else (strtoll metric.value).map .int
  value.map fun value =>
    { name := metric.name
      value := value
      type := typeFromStr metric.type
      fields := builtIn
      capturedFields := createFieldsForCapturedMetrics metric.dims }

end AppView.Statsd

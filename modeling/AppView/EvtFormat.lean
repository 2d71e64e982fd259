import AppView.Framework.Json
import AppView.Framework.Runs
import AppView.Statsd.Format

/-!
# Events as JSON, and how many of them (`evtformat.c`)

`evtFormatHelper` turns a metric into the JSON of an event, if its source is enabled and its
name and one of its values match. Before the values are looked at it counts the events of the
second. When there are more than `maxEvtPerSec` it returns a notice in place of the event, once
in a second; **the events after the notice are formatted like all others** (`reply_eq`). So the
number of events in a second is bounded only where that one notice is enough: **`rate_limit`**
says exactly when. **`event_names_unique`**: when each name occurs once in an event.
-/

namespace AppView.EvtFormat

open Framework List
open Statsd (DataType FieldValue Value valueText)

abbrev Text : Type := List Char

abbrev Doc : Type := Json Text

/-! ## Events -/

inductive Watch where
  | file | console | syslog | metric | http | net | fs | dns | sec
  deriving DecidableEq

structure Field where
  name : Text
  value : FieldValue
  eventUsage : Bool

structure Event (δ : Type*) where
  name : Text
  value : Value δ
  type : DataType
  fields : List Field
  src : Watch
  capturedFields : List Field
  data : Option Doc

structure ProcId where
  hostname : Text
  procname : Text
  cmd : Option Text
  pid : ℤ

structure Timeval where
  sec : ℤ
  usec : ℕ

structure Lib (δ : Type*) where
  printFlt : δ → Text
  number : ℤ → Text
  floating : δ → Text
  timestamp : Timeval → Text

structure Ratelimit where
  time : ℤ
  evtCount : UInt64
  notified : Bool
  maxEvtPerSec : UInt64
  deriving DecidableEq

structure EvtFmt where
  valueFilter : Watch → Option (Text → Bool)
  fieldFilter : Watch → Option (Text → Bool)
  nameFilter : Watch → Option (Text → Bool)
  enabled : Watch → Bool
  ratelimit : Ratelimit
  tags : List (Text × Text)

def Ratelimit.create (maxEvtPerSec : UInt64) : Ratelimit :=
  { time := 0, evtCount := 0, notified := false, maxEvtPerSec := maxEvtPerSec }

/-! ## Formatting -/

variable {δ : Type*}

def anyValueFieldMatches (lib : Lib δ) (filter : Option (Text → Bool)) (metric : Event δ) : Bool :=
  match filter with
  | none => true
  | some re =>
    let valbuf := valueText lib.printFlt metric.value
    (valbuf ≠ [] && re valbuf) || metric.fields.any fun fld => fld.value.text.any re

def watchType : Watch → Text
  | .file => "file".toList
  | .console => "console".toList
  | .syslog => "syslog".toList
  | .metric => "metric".toList
  | .http => "http".toList
  | .net => "net".toList
  | .fs => "fs".toList
  | .dns => "dns".toList
  | .sec => "sec".toList

def metricTypeStr : DataType → Text
  | .delta => "counter".toList
  | .current => "gauge".toList
  | .deltaMs => "timer".toList
  | .histogram => "histogram".toList
  | .set => "set".toList

structure Filling where
  members : List (Text × Doc)
  added : List Text

def fieldJson (lib : Lib δ) : FieldValue → Option Doc
  | .str s => s.map Json.string
  | .num n => some (.number (lib.number n.toInt))

def addJsonField (lib : Lib δ) (fieldFilter : Option (Text → Bool)) (json : Filling)
    (fld : Field) : Filling :=
  if fieldFilter.any (fun re => !re fld.name) then json
  else if !fld.eventUsage then json
  else if fld.name ∈ json.added then json
  else
    { members := json.members ++ ((fieldJson lib fld.value).map fun v => (fld.name, v)).toList
      added := json.added ++ [fld.name] }

def addJsonFields (lib : Lib δ) (fields : List Field) (fieldFilter : Option (Text → Bool))
    (json : Filling) : Filling :=
  fields.foldl (addJsonField lib fieldFilter) json

def addCustomJsonFields (tags : List (Text × Text)) (json : Filling) : Filling :=
  tags.foldl (fun json tag =>
    if tag.1 ∈ json.added then json
    else { members := json.members ++ [(tag.1, .string tag.2)], added := json.added ++ [tag.1] })
    json

/-- The object of a metric: each name once, with the value that was offered first. -/
def fmtMetricJson (lib : Lib δ) (metric : Event δ) (fieldFilter : Option (Text → Bool))
    (src : Watch) (tags : List (Text × Text)) : Doc :=
  let value : Text :=
    match metric.value with
    | .int n => lib.number n.toInt
    | .flt x => lib.floating x
  let head : List (Text × Doc) :=
    if src = .metric then
      [("_metric".toList, .string metric.name),
       ("_metric_type".toList, .string (metricTypeStr metric.type)),
       ("_value".toList, .number value)]
    else []
  let json := addJsonFields lib metric.capturedFields fieldFilter ⟨head, []⟩
  let json := addCustomJsonFields tags json
  .object (addJsonFields lib metric.fields fieldFilter json).members

structure EventFormat where
  timestamp : Timeval
  src : Text
  proc : ProcId
  data : Doc
  sourcetype : Watch

/-- No event for a process without a command line. -/
def fmtEventJson (lib : Lib δ) (tags : List (Text × Text)) (sev : EventFormat) : Option Doc :=
  sev.proc.cmd.map fun cmd =>
    .object
      ([("sourcetype".toList, .string (watchType sev.sourcetype)),
        ("_time".toList, .number (lib.timestamp sev.timestamp)),
        ("source".toList, .string sev.src),
        ("host".toList, .string sev.proc.hostname),
        ("proc".toList, .string sev.proc.procname),
        ("cmd".toList, .string cmd),
        ("pid".toList, .number (lib.number sev.proc.pid))] ++
        tags.map (fun tag => (tag.1, .string tag.2)) ++ [("data".toList, sev.data)])

def rateLimitMessage (lib : Lib δ) (now : Timeval) (proc : ProcId) (src : Watch)
    (maxEvtPerSec : UInt32) : Option Doc :=
  fmtEventJson lib []
    { timestamp := now
      src := "notice".toList
      proc := proc
      data := .string ("Truncated metrics. Your rate exceeded ".toList ++
        decimal maxEvtPerSec.toNat ++ " metrics per second".toList)
      sourcetype := src }

/-! ## The limit -/

/-- What `evtFormatHelper` returns; both kinds are JSON, which of them it is is a note. -/
inductive Reply where
  | event (json : Doc)
  | notice (json : Doc)
  | nothing

def Reply.isEvent : Reply → Bool
  | .event _ => true
  | _ => false

def Reply.isNotice : Reply → Bool
  | .notice _ => true
  | _ => false

def Ratelimit.next (r : Ratelimit) (sec : ℤ) : Ratelimit × Bool :=
  if r.maxEvtPerSec = 0 then (r, false)
  else if sec ≠ r.time then ({ r with time := sec, evtCount := 0, notified := false }, false)
  else
    let r := { r with evtCount := r.evtCount + 1 }
    (r, r.evtCount ≥ r.maxEvtPerSec && !r.notified)

structure Arrival (δ : Type*) where
  now : Timeval
  later : Timeval
  metric : Event δ
  proc : ProcId
  src : Watch

def formatted (lib : Lib δ) (evt : EvtFmt) (a : Arrival δ) : Reply :=
  if !anyValueFieldMatches lib (evt.valueFilter a.src) a.metric then .nothing
  else
    (fmtEventJson lib evt.tags
      { timestamp := a.now
        src := a.metric.name
        proc := a.proc
        data := a.metric.data.getD
          (fmtMetricJson lib a.metric (evt.fieldFilter a.src) a.src [])
        sourcetype := a.src }).elim .nothing .event

/-- The events of the second are counted before the values are looked at. -/
def evtFormatHelper (lib : Lib δ) (evt : EvtFmt) (a : Arrival δ) : EvtFmt × Reply :=
  if !evt.enabled a.src || !(evt.nameFilter a.src).any (· a.metric.name) then (evt, .nothing)
  else
    let (r, due) := evt.ratelimit.next a.now.sec
    if due then
      -- one notice per truncate
      let notice := rateLimitMessage lib a.later a.proc a.src r.maxEvtPerSec.toUInt32
      ({ evt with ratelimit := { r with notified := notice.isSome } },
       notice.elim .nothing .notice)
    else ({ evt with ratelimit := r }, formatted lib evt a)

/-! ## Replies by the number of events before -/

structure EvtFmt.Passes (lib : Lib δ) (evt : EvtFmt) (a : Arrival δ) : Prop where
  enabled : evt.enabled a.src = true
  name : (evt.nameFilter a.src).any (· a.metric.name) = true
  value : anyValueFieldMatches lib (evt.valueFilter a.src) a.metric = true

variable {lib : Lib δ} {evt : EvtFmt} {a : Arrival δ} {m : UInt64}

theorem isEvent_formatted (hpass : evt.Passes lib a) (hcmd : a.proc.cmd ≠ none) :
    (formatted lib evt a).isEvent = true := by
  obtain ⟨cmd, hcmd⟩ := Option.ne_none_iff_exists'.1 hcmd
  rw [formatted, hpass.value, fmtEventJson, hcmd]
  rfl

theorem isSome_rateLimitMessage (now : Timeval) (src : Watch) (max : UInt32)
    (hcmd : a.proc.cmd ≠ none) : (rateLimitMessage lib now a.proc src max).isSome = true := by
  obtain ⟨cmd, hcmd⟩ := Option.ne_none_iff_exists'.1 hcmd
  rw [rateLimitMessage, fmtEventJson, hcmd]
  rfl

def Ratelimit.after (m : UInt64) (secs : List ℤ) : Ratelimit :=
  let time := secs.getLast?.getD 0
  { time := time
    evtCount := UInt64.ofNat (secs.count time - 1)
    notified := m.toNat < secs.count time
    maxEvtPerSec := m }

theorem after_nil (m : UInt64) : Ratelimit.after m [] = Ratelimit.create m := by
  simp [Ratelimit.after, Ratelimit.create]

theorem after_concat (m : UInt64) (secs : List ℤ) (sec : ℤ) : Ratelimit.after m (secs ++ [sec]) =
      { time := sec, evtCount := UInt64.ofNat (secs.count sec)
        notified := m.toNat ≤ secs.count sec, maxEvtPerSec := m } := by
  simp [Ratelimit.after]

variable {secs : List ℤ} {as : List (Arrival δ)}

theorem count_eq_zero_of_last_ne {sec : ℤ} (hsorted : (secs ++ [sec]).Pairwise (· ≤ ·))
    (hne : sec ≠ secs.getLast?.getD 0) : secs.count sec = 0 := by
  rw [count_eq_zero]
  intro hmem
  obtain ⟨init, last, rfl⟩ := (eq_nil_or_concat' secs).resolve_left (ne_nil_of_mem hmem)
  obtain ⟨hsecs, -, hle⟩ := pairwise_append.1 hsorted
  rw [getLast?_concat, Option.getD_some] at hne
  have hlast : last ≤ sec := hle last (by simp) sec (mem_singleton_self sec)
  rcases mem_append.1 hmem with hinit | hlast'
  · have := (pairwise_append.1 hsecs).2.2 sec hinit last (mem_singleton_self last)
    exact hne (Int.le_antisymm this hlast)
  · exact hne (mem_singleton.1 hlast')

theorem next_after {sec : ℤ} (hm : m ≠ 0) (hsorted : (secs ++ [sec]).Pairwise (· ≤ ·))
    (hsec : sec ≠ 0) : (Ratelimit.after m secs).next sec =
      (({ time := sec, evtCount := UInt64.ofNat (secs.count sec)
          notified := m.toNat < secs.count sec, maxEvtPerSec := m } : Ratelimit),
       decide (secs.count sec = m.toNat)) := by
  have hpos : 0 < m.toNat := by
    rw [Nat.pos_iff_ne_zero]
    exact fun h0 => hm (UInt64.toNat_inj.1 h0)
  have hmax : (Ratelimit.after m secs).maxEvtPerSec ≠ 0 := hm
  rw [Ratelimit.next, if_neg hmax]
  by_cases hlast : sec = secs.getLast?.getD 0
  · have htime : ¬ sec ≠ (Ratelimit.after m secs).time := not_not.2 hlast
    rw [if_neg htime]
    -- not the first event, for the counters start with second 0
    have hcount : 0 < secs.count sec := by
      rw [count_pos_iff]
      rcases hl : secs.getLast? with _ | last
      · rw [hl] at hlast
        exact absurd hlast hsec
      · rw [hl, Option.getD_some] at hlast
        exact hlast ▸ mem_of_getLast? hl
    have hnext : UInt64.ofNat (secs.count sec - 1) + 1 = UInt64.ofNat (secs.count sec) := by
      rw [← UInt64.ofNat_one, ← UInt64.ofNat_add, Nat.sub_add_cancel hcount]
    have hdue : (decide (UInt64.ofNat (secs.count sec) ≥ m) &&
        !decide (m.toNat < secs.count sec)) = decide (secs.count sec = m.toNat) := by
      rcases Nat.lt_or_ge m.toNat (secs.count sec) with hlt | hge
      · simp [hlt, Nat.ne_of_gt hlt]
      · have hsmall : secs.count sec < 2 ^ 64 := lt_of_le_of_lt hge m.toNat_lt
        have htoNat : (UInt64.ofNat (secs.count sec)).toNat = secs.count sec := by
          rw [UInt64.toNat_ofNat', Nat.mod_eq_of_lt hsmall]
        have hdec : UInt64.ofNat (secs.count sec) ≥ m ↔ secs.count sec = m.toNat := by
          rw [ge_iff_le, UInt64.le_iff_toNat_le, htoNat]
          omega
        simp [hdec, Nat.not_lt.2 hge]
    simp [Ratelimit.after, ← hlast, hnext, hdue]
  · have htime : sec ≠ (Ratelimit.after m secs).time := hlast
    rw [if_pos htime]
    have hzero : secs.count sec = 0 := count_eq_zero_of_last_ne hsorted hlast
    simp [Ratelimit.after, hzero, hpos.ne]

/-- **One event**: the notice comes in place of the event that has `m` events before it in
its second. All others are formatted. -/
theorem evtFormatHelper_eq (hm : m ≠ 0) (hsorted : (secs ++ [a.now.sec]).Pairwise (· ≤ ·))
    (hsec : a.now.sec ≠ 0) (hpass : evt.Passes lib a) (hcmd : a.proc.cmd ≠ none) :
    evtFormatHelper lib { evt with ratelimit := .after m secs } a =
      ({ evt with ratelimit := .after m (secs ++ [a.now.sec]) },
       if secs.count a.now.sec = m.toNat then
         (rateLimitMessage lib a.later a.proc a.src m.toUInt32).elim .nothing .notice
       else formatted lib evt a) := by
  have hselect : (!evt.enabled a.src || !(evt.nameFilter a.src).any (· a.metric.name)) = false := by
    rw [hpass.enabled, hpass.name]
    rfl
  simp only [evtFormatHelper, hselect, next_after hm hsorted hsec, after_concat]
  rw [if_neg Bool.false_ne_true]
  by_cases hdue : secs.count a.now.sec = m.toNat
  · rw [if_pos (decide_eq_true hdue), if_pos hdue,
      isSome_rateLimitMessage a.later a.src m.toUInt32 hcmd]
    simp [hdue]
  · have hle : m.toNat < secs.count a.now.sec ↔ m.toNat ≤ secs.count a.now.sec := by omega
    rw [if_neg (by simpa using hdue), if_neg hdue]
    simp only [hle]
    rfl

/-! ## Whole sequences -/

def seconds (as : List (Arrival δ)) : List ℤ := as.map (·.now.sec)

def arrivals (sec : ℤ) (as : List (Arrival δ)) : ℕ := (seconds as).count sec

def replies (lib : Lib δ) (evt : EvtFmt) (as : List (Arrival δ)) : List Reply :=
  (run (evtFormatHelper lib) evt as).2

def repliesIn (kind : Reply → Bool) (lib : Lib δ) (evt : EvtFmt) (sec : ℤ)
    (as : List (Arrival δ)) : ℕ :=
  ((seconds as).zip ((replies lib evt as).map kind)).count (sec, true)

structure Timely (lib : Lib δ) (evt : EvtFmt) (as : List (Arrival δ)) : Prop where
  passes : ∀ a ∈ as, evt.Passes lib a
  sorted : (seconds as).Pairwise (· ≤ ·)
  clock : ∀ a ∈ as, a.now.sec ≠ 0
  cmd : ∀ a ∈ as, a.proc.cmd ≠ none

theorem seconds_append (as bs : List (Arrival δ)) : seconds (as ++ bs) = seconds as ++ seconds bs :=
  map_append

theorem Timely.of_append {bs : List (Arrival δ)} (h : Timely lib evt (as ++ bs)) :
    Timely lib evt as := by
  constructor
  case passes => exact fun a ha => h.passes a (mem_append_left bs ha)
  case sorted => exact (pairwise_append.1 (seconds_append as bs ▸ h.sorted)).1
  case clock => exact fun a ha => h.clock a (mem_append_left bs ha)
  case cmd => exact fun a ha => h.cmd a (mem_append_left bs ha)

theorem Timely.step (h : Timely lib evt (as ++ [a])) (hm : m ≠ 0) :
    evtFormatHelper lib { evt with ratelimit := .after m (seconds as) } a =
      ({ evt with ratelimit := .after m (seconds (as ++ [a])) },
       if arrivals a.now.sec as = m.toNat then
         (rateLimitMessage lib a.later a.proc a.src m.toUInt32).elim .nothing .notice
       else formatted lib evt a) := by
  have hmem : a ∈ as ++ [a] := mem_append_right as (mem_singleton_self a)
  have hsorted := h.sorted
  rw [seconds_append] at hsorted ⊢
  exact evtFormatHelper_eq hm hsorted (h.clock a hmem) (h.passes a hmem) (h.cmd a hmem)

/-- **The counters after a run** are given by the seconds of its events. -/
theorem run_state (hm : m ≠ 0) (hevt : evt.ratelimit = .create m) (h : Timely lib evt as) :
    (run (evtFormatHelper lib) evt as).1 =
      { evt with ratelimit := .after m (seconds as) } := by
  induction as using reverseRecOn with
  | nil =>
    rw [run_nil, seconds, map_nil, after_nil, ← hevt]
  | append_singleton as a ih =>
    rw [run_append, ih h.of_append, run_cons, run_nil, h.step hm]

/-- **Every reply is decided by the number of events before it in its second.** -/
theorem reply_eq (hm : m ≠ 0) (hevt : evt.ratelimit = .create m) (h : Timely lib evt (as ++ [a])) :
    (evtFormatHelper lib (run (evtFormatHelper lib) evt as).1 a).2 =
      if arrivals a.now.sec as = m.toNat then
        (rateLimitMessage lib a.later a.proc a.src m.toUInt32).elim .nothing .notice
      else formatted lib evt a := by
  rw [run_state hm hevt h.of_append, h.step hm]

theorem repliesIn_concat (kind : Reply → Bool) (sec : ℤ) (as : List (Arrival δ)) (a : Arrival δ) :
    repliesIn kind lib evt sec (as ++ [a]) = repliesIn kind lib evt sec as +
      if a.now.sec = sec ∧ kind (evtFormatHelper lib (run (evtFormatHelper lib) evt as).1 a).2
      then 1 else 0 := by
  have hlen : (seconds as).length = ((replies lib evt as).map kind).length := by
    rw [seconds, replies, length_map, length_map, length_run]
  have hreplies : replies lib evt (as ++ [a]) = replies lib evt as ++
      [(evtFormatHelper lib (run (evtFormatHelper lib) evt as).1 a).2] := by
    rw [replies, run_append, run_cons, run_nil]
    rfl
  rw [repliesIn, seconds_append, hreplies, map_append, zip_append hlen, count_append]
  simp only [seconds, map_cons, map_nil, zip_cons_cons, zip_nil_left,
    count_singleton, beq_iff_eq, Prod.mk.injEq]
  rfl

theorem arrivals_concat (sec : ℤ) (as : List (Arrival δ)) (a : Arrival δ) :
    arrivals sec (as ++ [a]) = arrivals sec as + if a.now.sec = sec then 1 else 0 := by
  rw [arrivals, seconds_append, count_append]
  simp [arrivals, seconds, count_singleton]

/-- **How many notices and events there are in a second.** -/
theorem repliesIn_eq (hm : m ≠ 0) (hevt : evt.ratelimit = .create m) (h : Timely lib evt as)
    (sec : ℤ) :
    repliesIn Reply.isNotice lib evt sec as = (if m.toNat < arrivals sec as then 1 else 0) ∧
    repliesIn Reply.isEvent lib evt sec as =
      arrivals sec as - (if m.toNat < arrivals sec as then 1 else 0) := by
  induction as using reverseRecOn with
  | nil => simp [repliesIn, arrivals, seconds]
  | append_singleton as a ih =>
    obtain ⟨hnotices, hevents⟩ := ih h.of_append
    have hmem : a ∈ as ++ [a] := mem_append_right as (mem_singleton_self a)
    rw [repliesIn_concat, repliesIn_concat, arrivals_concat, hnotices, hevents, reply_eq hm hevt h]
    by_cases hsec : a.now.sec = sec
    · by_cases hdue : arrivals a.now.sec as = m.toNat
      · obtain ⟨json, hjson⟩ := Option.isSome_iff_exists.1
          (@isSome_rateLimitMessage _ lib _ a.later a.src m.toUInt32 (h.cmd a hmem))
        subst hsec
        simp [hdue, hjson, Reply.isNotice, Reply.isEvent]
      · have hevent := isEvent_formatted (h.passes a hmem) (h.cmd a hmem)
        have hnotice : (formatted lib evt a).isNotice = false := by
          revert hevent
          cases formatted lib evt a <;> simp [Reply.isEvent, Reply.isNotice]
        subst hsec
        simp only [hdue, hevent, hnotice, if_true, if_false, and_true]
        constructor
        · simp only [Bool.false_eq_true, if_false, and_false, Nat.add_zero]
          split_ifs <;> omega
        · split_ifs <;> omega
    · simp [hsec]

/-- **The limit holds in a second exactly if the notice is enough to keep it**: with more than
one event above the limit all but one of them are let through. There is at most one notice in
a second, and an event is not suppressed while there are fewer than the limit before it. -/
theorem rate_limit (lib : Lib δ) (evt : EvtFmt) {m : UInt64} (hm : m ≠ 0)
    (hevt : evt.ratelimit = .create m) {as : List (Arrival δ)} (h : Timely lib evt as) :
    (∀ sec, repliesIn Reply.isNotice lib evt sec as ≤ 1 ∧
      (repliesIn Reply.isEvent lib evt sec as ≤ m.toNat ↔ arrivals sec as ≤ m.toNat + 1)) ∧
    ∀ before a after, as = before ++ a :: after → arrivals a.now.sec before ≤ m.toNat - 1 →
      (evtFormatHelper lib (run (evtFormatHelper lib) evt before).1 a).2.isEvent = true := by
  have hpos : 0 < m.toNat := by
    rw [Nat.pos_iff_ne_zero]
    exact fun h0 => hm (UInt64.toNat_inj.1 h0)
  constructor
  · intro sec
    obtain ⟨hnotices, hevents⟩ := repliesIn_eq hm hevt h sec
    rw [hnotices, hevents]
    constructor
    · split_ifs <;> omega
    · split_ifs <;> omega
  · rintro before a after rfl hfew
    have htimely : Timely lib evt (before ++ [a]) := by
      refine @Timely.of_append _ _ _ _ after ?_
      rwa [append_assoc, singleton_append]
    have hmem : a ∈ before ++ [a] := mem_append_right before (mem_singleton_self a)
    rw [reply_eq hm hevt htimely, if_neg (by omega)]
    exact isEvent_formatted (htimely.passes a hmem) (htimely.cmd a hmem)

/-! A format without filters, and events of one kind. -/

def plainLib : Lib Unit := ⟨fun _ => ['0'], decimal, fun _ => ['0'], fun t => decimal t.sec⟩

def openFmt (m : UInt64) : EvtFmt :=
  { valueFilter := fun _ => none, fieldFilter := fun _ => none
    nameFilter := fun _ => some fun _ => true, enabled := fun _ => true
    ratelimit := .create m, tags := [] }

def openedAt (sec : ℤ) : Arrival Unit :=
  { now := ⟨sec, 0⟩, later := ⟨sec, 1⟩
    metric := ⟨"fs.open".toList, .int 1, .delta, [], .fs, [], none⟩
    proc := ⟨"h".toList, "p".toList, some "p".toList, 7⟩, src := .fs }

def openedIn (secs : List ℤ) : List (Arrival Unit) := secs.map openedAt

theorem timely_openedIn (m : UInt64) (hsorted : secs.Pairwise (· ≤ ·))
    (hclock : ∀ sec ∈ secs, sec ≠ 0) : Timely plainLib (openFmt m) (openedIn secs) := by
  constructor
  case passes =>
    intro a ha
    obtain ⟨sec, -, rfl⟩ := mem_map.1 ha
    exact ⟨rfl, rfl, rfl⟩
  case sorted =>
    rw [seconds, openedIn, map_map]
    exact (map_id secs).symm ▸ hsorted
  case clock =>
    intro a ha
    obtain ⟨sec, hsec, rfl⟩ := mem_map.1 ha
    exact hclock sec hsec
  case cmd =>
    intro a ha
    obtain ⟨sec, -, rfl⟩ := mem_map.1 ha
    nofun

/-- Two events and the notice for the third one, in second 5, and one more in second 6. -/
theorem rate_limit_two :
    repliesIn Reply.isEvent plainLib (openFmt 2) 5 (openedIn [5, 5, 5, 6]) ≤ 2 ∧
    repliesIn Reply.isNotice plainLib (openFmt 2) 5 (openedIn [5, 5, 5, 6]) ≤ 1 ∧
    (replies plainLib (openFmt 2) (openedIn [5, 5, 5, 6])).map Reply.isNotice =
      [false, false, true, false] := by
  have h := rate_limit plainLib (openFmt 2) (m := 2) (by decide) rfl
    (@timely_openedIn [5, 5, 5, 6] 2 (by decide) (by decide))
  exact ⟨(h.1 5).2.2 (by decide), (h.1 5).1, by decide⟩

/-- With a limit of one event, the first and the third event of a second are let through. -/
theorem rate_limit_third : (∀ a ∈ openedIn [5, 5, 5], (openFmt 1).Passes plainLib a) ∧
    (replies plainLib (openFmt 1) (openedIn [5, 5, 5])).map Reply.isEvent = [true, false, true] ∧
    repliesIn Reply.isEvent plainLib (openFmt 1) 5 (openedIn [5, 5, 5]) = 2 := by
  refine ⟨?_, by decide, by decide⟩
  exact (@timely_openedIn [5, 5, 5] 1 (by decide) (by decide)).passes

/-! ## The names of the members -/

section Names

variable (lib : Lib δ) (metric : Event δ) (fieldFilter : Option (Text → Bool))
  (tags : List (Text × Text))

def names : Doc → List Text
  | .object members => members.map Prod.fst
  | _ => []

abbrev Offer : Type := Text × Option Doc

def addOffer (json : Filling) (x : Offer) : Filling :=
  if x.1 ∈ json.added then json
  else ⟨json.members ++ (x.2.map (x.1, ·)).toList, json.added ++ [x.1]⟩

def offers (fields : List Field) : List Offer :=
  (fields.filter fun fld => !fieldFilter.any (fun re => !re fld.name) && fld.eventUsage).map
    fun fld => (fld.name, fieldJson lib fld.value)

/-- What may become a member of the data, captured fields first. -/
def eligible : List Offer :=
  offers lib fieldFilter metric.capturedFields ++
    tags.map (fun tag => (tag.1, some (.string tag.2))) ++ offers lib fieldFilter metric.fields

def metricMembers : List Text := ["_metric", "_metric_type", "_value"].map String.toList

def eventMembers : List Text :=
  ["sourcetype", "_time", "source", "host", "proc", "cmd", "pid", "data"].map String.toList

theorem addJsonFields_eq (fields : List Field) (json : Filling) :
    addJsonFields lib fields fieldFilter json =
      (offers lib fieldFilter fields).foldl addOffer json := by
  rw [addJsonFields, offers, foldl_map, foldl_filter]
  congr 1
  funext json fld
  rcases hfilter : fieldFilter.any (fun re => !re fld.name) <;> rcases huse : fld.eventUsage <;>
    simp [addJsonField, addOffer, hfilter, huse]

/-- Each name gets the value that is offered first for it. -/
theorem foldl_addOffer (xs : List Offer) (json : Filling) :
    ∃ more, (xs.foldl addOffer json).members = json.members ++ more ∧
      (more.map Prod.fst).Nodup ∧ ∀ name v, (name, v) ∈ more ↔
        name ∉ json.added ∧ xs.find? (·.1 = name) = some (name, some v) := by
  induction xs generalizing json with
  | nil => exact ⟨[], by simp⟩
  | cons x xs ih =>
    obtain ⟨n, o⟩ := x
    obtain ⟨more, hmembers, hnodup, hmem⟩ := ih (addOffer json (n, o))
    by_cases hn : n ∈ json.added
    · rw [addOffer, if_pos hn] at hmembers hmem
      refine ⟨more, by rwa [foldl_cons, addOffer, if_pos hn], hnodup, fun name v => ?_⟩
      rw [hmem, find?_cons]
      by_cases heq : n = name
      · simp [← heq, hn]
      · simp [heq]
    · rw [addOffer, if_neg hn] at hmembers hmem
      refine ⟨(o.map (n, ·)).toList ++ more, ?_, ?_, fun name v => ?_⟩
      · rw [foldl_cons, addOffer, if_neg hn, hmembers, append_assoc]
      · cases o <;> simp [hnodup, hmem]
      · rw [mem_append, hmem, find?_cons]
        by_cases heq : n = name
        · subst heq
          cases o <;> simp [hn, eq_comm]
        · cases o <;> simp [heq, Ne.symm heq]

/-- Each name occurs once in both objects, and in that of `fmtMetricJson` with the first value in
the order captured, custom, ordinary. -/
def UniqueNames (sev : EventFormat) (src : Watch) : Prop :=
  (∀ doc ∈ fmtEventJson lib tags sev, (names doc).Nodup) ∧
    ∃ head more, fmtMetricJson lib metric fieldFilter src tags = .object (head ++ more) ∧
      head.map Prod.fst = (if src = .metric then metricMembers else []) ∧
      ((head ++ more).map Prod.fst).Nodup ∧
      ∀ name v, (name, v) ∈ more ↔
        (eligible lib metric fieldFilter tags).find? (·.1 = name) = some (name, some v)

theorem nodup_fmtEventJson (sev : EventFormat) :
    (∀ doc ∈ fmtEventJson lib tags sev, (names doc).Nodup) ↔ sev.proc.cmd = none ∨
      (tags.map Prod.fst).Nodup ∧ ∀ tag ∈ tags, tag.1 ∉ eventMembers := by
  have hmembers : ∀ cmd, sev.proc.cmd = some cmd → ∀ doc ∈ fmtEventJson lib tags sev,
      ((names doc).Nodup ↔ (tags.map Prod.fst).Nodup ∧ ∀ tag ∈ tags, tag.1 ∉ eventMembers) := by
    intro cmd _ doc hdoc
    obtain ⟨cmd, -, rfl⟩ := Option.map_eq_some_iff.1 hdoc
    rw [names, map_append, map_append, map_map]
    rw [((perm_append_comm.append_right _).trans (.of_eq (append_assoc ..))).nodup_iff,
      nodup_append]
    have hevent : eventMembers.Nodup := by decide
    constructor
    · rintro ⟨htags, -, hdisjoint⟩
      exact ⟨htags, fun tag htag hmem => hdisjoint _ (mem_map_of_mem htag) _ hmem rfl⟩
    · rintro ⟨htags, hnew⟩
      refine ⟨htags, hevent, ?_⟩
      rintro a ha b hb rfl
      obtain ⟨tag, htag, rfl⟩ := mem_map.1 ha
      exact hnew tag htag hb
  rcases hcmd : sev.proc.cmd with _ | cmd
  · refine iff_of_true (fun doc hdoc => ?_) (.inl rfl)
    rw [fmtEventJson, hcmd] at hdoc
    cases hdoc
  · obtain ⟨doc, hdoc⟩ : ∃ doc, fmtEventJson lib tags sev = some doc := by
      rw [fmtEventJson, hcmd]
      exact ⟨_, rfl⟩
    rw [hdoc]
    simpa using hmembers cmd hcmd doc hdoc

/-- **The names of an event are unique** exactly if the tags have different names, which are not
those of the event, and no name of a metric's own members gets a value from what is eligible. -/
theorem event_names_unique (sev : EventFormat) (src : Watch) :
    UniqueNames lib metric fieldFilter tags sev src ↔
    (sev.proc.cmd = none ∨ (tags.map Prod.fst).Nodup ∧ ∀ tag ∈ tags, tag.1 ∉ eventMembers) ∧
      (src = .metric → ∀ name ∈ metricMembers, ∀ v,
        (eligible lib metric fieldFilter tags).find? (·.1 = name) ≠ some (name, some v)) := by
  rw [UniqueNames, nodup_fmtEventJson]
  refine and_congr_right fun _ => ⟨?_, fun hmetric => ?_⟩
  · rintro ⟨head, more, -, hnames, hnodup, hfirst⟩ rfl name hname v hfind
    rw [map_append, nodup_append, hnames] at hnodup
    exact hnodup.2.2 name hname name (mem_map_of_mem ((hfirst name v).2 hfind)) rfl
  · unfold fmtMetricJson
    dsimp only
    generalize hhead : (if src = .metric then _ else []) = head
    have hnames : head.map Prod.fst = if src = .metric then metricMembers else [] := by
      rw [← hhead]
      split <;> rfl
    obtain ⟨more, hmembers, hnodup, hfirst⟩ :=
      foldl_addOffer (eligible lib metric fieldFilter tags) ⟨head, []⟩
    simp only [not_mem_nil, not_false_eq_true, true_and] at hfirst
    refine ⟨head, more, ?_, hnames, ?_, hfirst⟩
    · rw [← hmembers, eligible, foldl_append, foldl_append, foldl_map, addJsonFields_eq,
        addJsonFields_eq]
      rfl
    · rw [map_append, nodup_append, hnames]
      refine ⟨by split <;> decide, hnodup, ?_⟩
      rintro a ha b hb rfl
      split at ha
      · next hsrc =>
        obtain ⟨⟨a, v⟩, hm, rfl⟩ := mem_map.1 hb
        exact hmetric hsrc a ha v ((hfirst a v).1 hm)
      · cases ha

end Names

def taggedEvent : EventFormat :=
  ⟨⟨5, 0⟩, "fs".toList, ⟨"h".toList, "p".toList, some "c".toList, 7⟩, .string [], .metric⟩

def heldMetric (field : String) : Event Unit :=
  ⟨"m".toList, .int 1, .delta, [⟨field.toList, .str (some ['b']), true⟩], .metric, [], none⟩

/-- A tag `host`, and a field `_value`. -/
theorem event_names_twice :
    ((fmtEventJson plainLib [("host".toList, ['x'])] taggedEvent).map names).map
        (count "host".toList) = some 2 ∧
      (names (fmtMetricJson plainLib (heldMetric "_value") none .metric [])).count
        "_value".toList = 2 := by
  decide

end AppView.EvtFormat

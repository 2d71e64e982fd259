import AppView.Framework.Batches

/-!
# Aggregated log and console data

`ctlSendLog` queues what the process writes to its logs and its console, `ctlFlushLog` moves
the queued events to one stream for each descriptor, and a stream is sent as one message when
another channel shows up on the descriptor, when the next event would exceed the limit, or when
`ctlSendAllAggregatedLogData` reports all streams. **`log_aggregation`**: in every run the
messages of a descriptor and the data that is still buffered for it are the data of its events
in queue order, no message mixes two channels, and a message of more than one event keeps to
the limit. **`binary_notices`**: binary data on the console is a notice for each run of it.
-/

namespace AppView.Logs

open Framework List Function

/-! ## Events and streams -/

inductive Watch where
  | file
  | console
  deriving DecidableEq

structure Block where
  bytes : List UInt8
  small : bytes.length < 2 ^ 63

structure LogId where
  uid : UInt64
  timestamp : ℕ
  path : String
  sourcetype : Watch
  deriving DecidableEq

structure LogEvent where
  fd : ℤ
  id : LogId
  data : Block

def LogEvent.datalen (e : LogEvent) : UInt64 := UInt64.ofNat e.data.bytes.length

structure Stream where
  contents : List UInt8
  totSize : UInt64
  id : LogId

structure Message where
  fd : ℕ
  channel : String
  time : ℕ
  source : String
  sourcetype : Watch
  message : List UInt8

inductive ContentType where
  | unknown
  | binary
  | text
  deriving DecidableEq

structure Config where
  sourceEnabled : Watch → Bool
  nameFilter : Watch → Option (String → Bool)
  valueFilter : Watch → Option (List UInt8 → Bool)
  allowBinaryConsole : Bool
  queueLength : ℕ

structure Ctl where
  ringbuf : List LogEvent
  streamAgg : ℕ → Option Stream
  stopAggregating : Bool
  count : UInt64
  contentType : ℤ → Option ContentType

def fsEntries : ℕ := 1024

def maxAggBytes : UInt64 := 32768

def flushPeriodInMs : UInt64 := 2000

def Ctl.create : Ctl :=
  { ringbuf := [], streamAgg := fun _ => none, stopAggregating := false, count := 0
    contentType := fun _ => none }

/-! ## Queueing -/

def isprint (c : UInt8) : Bool := 32 ≤ c && c ≤ 126

def isspace (c : UInt8) : Bool := c = 32 || (9 ≤ c && c ≤ 13)

def isDataBinary (buf : List UInt8) : Bool :=
  (buf.take 256).any fun c => !isprint c && !isspace c && !(c = 27)

def binaryDataMsg : Block where
  bytes := [45, 45, 32, 98, 105, 110, 97, 114, 121, 32, 100, 97, 116, 97, 32, 105, 103, 110, 111,
    114, 101, 100, 32, 45, 45]
  small := by decide

def Config.selects (cfg : Config) (path : String) (w : Watch) : Bool :=
  cfg.sourceEnabled w && (cfg.nameFilter w).any (· path)

def Config.logType (cfg : Config) (path : String) : Option Watch :=
  if cfg.selects path .console then some .console
  else if cfg.selects path .file then some .file
  else none

def cbufPut (cfg : Config) (ctl : Ctl) (event : LogEvent) : Ctl × ℤ :=
  if ctl.ringbuf.length < cfg.queueLength then
    ({ ctl with ringbuf := ctl.ringbuf ++ [event] }, 0)
  else (ctl, -1)

def ctlSendLog (cfg : Config) (ctl : Ctl) (fd : ℤ) (path : String) (buf : Block) (uid : UInt64)
    (timestamp : ℕ) : Ctl × ℤ :=
  match cfg.logType path with
  | none => (ctl, 0)
  | some logType =>
    let event (data : Block) : LogEvent := ⟨fd, ⟨uid, timestamp, path, logType⟩, data⟩
    if !cfg.allowBinaryConsole && logType = .console then
      let prev := (ctl.contentType fd).getD .unknown
      let cur : ContentType := if isDataBinary buf.bytes then .binary else .text
      let ctl := { ctl with
        contentType := update ctl.contentType fd
          ((ctl.contentType fd).map fun _ => cur) }
      -- only the first event of binary data is reported
      if cur = .binary then
        if prev ≠ .binary then cbufPut cfg ctl (event binaryDataMsg) else (ctl, -1)
      else cbufPut cfg ctl (event buf)
    else cbufPut cfg ctl (event buf)

/-! ## Sending -/

def channel (uid : UInt64) : String := if uid = 0 then "none" else toString uid.toNat

def createLogEventJson (cfg : Config) (fd : ℕ) (stmbuf : Stream) : Option Message :=
  if (cfg.valueFilter stmbuf.id.sourcetype).all (· stmbuf.contents) then
    some { fd := fd, channel := channel stmbuf.id.uid, time := stmbuf.id.timestamp
           source := stmbuf.id.path, sourcetype := stmbuf.id.sourcetype
           message := stmbuf.contents }
  else none

def sendAggregatedLogData (cfg : Config) (fd : ℕ) (stmbuf : Stream) : List Message :=
  (createLogEventJson cfg fd stmbuf).toList

def sendStreams (cfg : Config) : List ℕ → (ℕ → Option Stream) → (ℕ → Option Stream) × List Message
  | [], streams => (streams, [])
  | i :: is, streams =>
    match streams i with
    | none => sendStreams cfg is streams
    | some stmbuf =>
      let r := sendStreams cfg is (update streams i none)
      (r.1, sendAggregatedLogData cfg i stmbuf ++ r.2)

def ctlSendAllAggregatedLogData (cfg : Config) (ctl : Ctl) : Ctl × List Message :=
  let reportNow := ctl.stopAggregating || ctl.count % flushPeriodInMs = 0
  let ctl := { ctl with count := ctl.count + 1 }
  if reportNow then
    let r := sendStreams cfg (List.range fsEntries) ctl.streamAgg
    ({ ctl with streamAgg := r.1 }, r.2)
  else (ctl, [])

def Stream.full (stmbuf : Stream) (event : LogEvent) : Bool :=
  stmbuf.id.uid ≠ event.id.uid || stmbuf.totSize + event.datalen > maxAggBytes

def aggregate (cfg : Config) (fd : ℕ) (stmbuf : Option Stream) (event : LogEvent) :
    Stream × List Message :=
  let (stmbuf, sent) :=
    match stmbuf with
    | some st => if st.full event then (none, sendAggregatedLogData cfg fd st) else (some st, [])
    | none => (none, [])
  let st := stmbuf.getD ⟨[], 0, event.id⟩
  ({ st with
    contents := st.contents ++ event.data.bytes
    totSize := st.totSize + event.datalen }, sent)

def flushEvents (cfg : Config) : List LogEvent → (ℕ → Option Stream) →
    (ℕ → Option Stream) × List Message
  | [], streams => (streams, [])
  | event :: events, streams =>
    if 0 ≤ event.fd ∧ event.fd < fsEntries then
      let fd := event.fd.toNat
      let (st, sent) := aggregate cfg fd (streams fd) event
      let r := flushEvents cfg events (update streams fd (some st))
      (r.1, sent ++ r.2)
    else flushEvents cfg events streams

def ctlFlushLog (cfg : Config) (ctl : Ctl) : Ctl × List Message :=
  let r := flushEvents cfg ctl.ringbuf ctl.streamAgg
  ({ ctl with ringbuf := [], streamAgg := r.1 }, r.2)

/-! ## Runs -/

inductive Op where
  | sendLog (fd : ℤ) (path : String) (buf : Block) (uid : UInt64) (timestamp : ℕ)
  | flushLog
  | sendAll
  | stopAggregating
  /-- The descriptor is opened or closed. -/
  | setEntry (fd : ℤ) (entry : Option ContentType)

def step (cfg : Config) (ctl : Ctl) : Op → Ctl × List Message
  | .sendLog fd path buf uid timestamp => ((ctlSendLog cfg ctl fd path buf uid timestamp).1, [])
  | .flushLog => ctlFlushLog cfg ctl
  | .sendAll => ctlSendAllAggregatedLogData cfg ctl
  | .stopAggregating => ({ ctl with stopAggregating := true }, [])
  | .setEntry fd entry =>
    ({ ctl with contentType := update ctl.contentType fd entry }, [])

def queued (cfg : Config) (ctl : Ctl) : Op → List LogEvent
  | .sendLog fd path buf uid timestamp =>
    (ctlSendLog cfg ctl fd path buf uid timestamp).1.ringbuf.drop ctl.ringbuf.length
  | _ => []

/-! ## The events of a stream -/

structure Stream.Holds (stmbuf : Stream) (batch : List LogEvent) : Prop where
  contents : stmbuf.contents = batch.flatMap (·.data.bytes)
  totSize : stmbuf.totSize = UInt64.ofNat stmbuf.contents.length
  small : stmbuf.contents.length < 2 ^ 63
  uid : ∀ e ∈ batch, e.id.uid = stmbuf.id.uid
  size : stmbuf.contents.length ≤ maxAggBytes.toNat ∨ ∃ e, batch = [e]

def Buffers : Option Stream → List LogEvent → Prop
  | none, batch => batch = []
  | some stmbuf, batch => stmbuf.Holds batch

/-- **What a message stands for**: the data of events of one channel, no more than the limit
unless it is one event. -/
structure Message.Carries (m : Message) (batch : List LogEvent) : Prop where
  message : m.message = batch.flatMap (·.data.bytes)
  channel : ∃ uid, m.channel = Logs.channel uid ∧ ∀ e ∈ batch, e.id.uid = uid
  size : m.message.length ≤ maxAggBytes.toNat ∨ ∃ e, batch = [e]

def Config.Accepts (cfg : Config) : Prop :=
  ∀ w text, (cfg.valueFilter w).all (· text) = true

variable {cfg : Config} {d : ℕ}

theorem sendAggregatedLogData_accepted (hcfg : cfg.Accepts) (fd : ℕ) (stmbuf : Stream) :
    ∃ m : Message, sendAggregatedLogData cfg fd stmbuf = [m] ∧ m.fd = fd ∧
      ∀ batch, stmbuf.Holds batch → m.Carries batch := by
  rw [sendAggregatedLogData, createLogEventJson, if_pos (hcfg ..)]
  refine ⟨_, rfl, rfl, ?_⟩
  intro batch hholds
  exact ⟨hholds.contents, ⟨stmbuf.id.uid, rfl, hholds.uid⟩, hholds.size⟩

theorem sendAggregatedLogData_fd (cfg : Config) (fd : ℕ) (stmbuf : Stream) :
    ∀ m ∈ sendAggregatedLogData cfg fd stmbuf, m.fd = fd := by
  intro m hm
  rw [sendAggregatedLogData, createLogEventJson, Option.mem_toList] at hm
  split_ifs at hm
  · cases hm
    rfl

theorem conveys_send (hcfg : cfg.Accepts) (fd : ℕ) (stmbuf : Stream) :
    Conveys Buffers Message.Carries (some stmbuf) [] (sendAggregatedLogData cfg fd stmbuf)
      none := by
  obtain ⟨m, hm, -, hcarries⟩ := sendAggregatedLogData_accepted hcfg fd stmbuf
  rw [hm]
  exact Conveys.single rfl hcarries

theorem datalen_toNat (e : LogEvent) : e.datalen.toNat = e.data.bytes.length :=
  UInt64.toNat_ofNat_of_lt' (Nat.lt_trans e.data.small (by decide))

theorem conveys_open (e : LogEvent) : Conveys Buffers Message.Carries none [e] []
      (some ⟨[] ++ e.data.bytes, 0 + e.datalen, e.id⟩) := by
  apply Conveys.silent
  rintro held rfl
  exact {
    contents := by simp
    totSize := UInt64.zero_add _
    small := e.data.small
    uid := by simp
    size := Or.inr ⟨e, rfl⟩ }

theorem conveys_append {stmbuf : Stream} {e : LogEvent} (hfull : stmbuf.full e = false) :
    Conveys Buffers Message.Carries (some stmbuf) [e] [] (some { stmbuf with
        contents := stmbuf.contents ++ e.data.bytes
        totSize := stmbuf.totSize + e.datalen }) := by
  apply Conveys.silent
  intro held hholds
  obtain ⟨huid, hsize⟩ : stmbuf.id.uid = e.id.uid ∧ stmbuf.totSize + e.datalen ≤ maxAggBytes := by
    simpa [Stream.full] using hfull
  have hlength : (stmbuf.contents ++ e.data.bytes).length ≤ maxAggBytes.toNat := by
    have hle := UInt64.le_iff_toNat_le.1 hsize
    have hcontents : stmbuf.totSize.toNat = stmbuf.contents.length := by
      rw [hholds.totSize]
      exact UInt64.toNat_ofNat_of_lt' (Nat.lt_trans hholds.small (by decide))
    have hsmall := hholds.small
    have hsmall' := e.data.small
    rw [UInt64.toNat_add, hcontents, datalen_toNat, Nat.mod_eq_of_lt (by omega)] at hle
    rwa [length_append]
  exact {
    contents := by simp [hholds.contents]
    totSize := by rw [length_append, UInt64.ofNat_add, ← hholds.totSize]; rfl
    small := Nat.lt_of_le_of_lt hlength (by decide)
    uid := by
      intro e' he'
      rcases mem_append.1 he' with he' | he'
      · exact hholds.uid e' he'
      · rw [mem_singleton.1 he', huid]
    size := Or.inl hlength }

/-- **An event is moved to the stream of its descriptor.** -/
theorem conveys_aggregate (hcfg : cfg.Accepts) (fd : ℕ) (stmbuf : Option Stream) (e : LogEvent) :
    Conveys Buffers Message.Carries stmbuf [e] (aggregate cfg fd stmbuf e).2
      (some (aggregate cfg fd stmbuf e).1) := by
  rcases stmbuf with _ | stmbuf
  · exact conveys_open e
  · rcases hfull : stmbuf.full e with _ | _
    · simpa [aggregate, hfull] using conveys_append hfull
    · have hsend := (conveys_send hcfg fd stmbuf).trans (conveys_open e)
      simpa [aggregate, hfull] using hsend

theorem aggregate_fd (cfg : Config) (fd : ℕ) (stmbuf : Option Stream) (e : LogEvent) :
    ∀ m ∈ (aggregate cfg fd stmbuf e).2, m.fd = fd := by
  rcases stmbuf with _ | stmbuf
  · exact forall_mem_nil _
  · rcases hfull : stmbuf.full e with _ | _
    · simp [aggregate, hfull]
    · simpa [aggregate, hfull] using sendAggregatedLogData_fd cfg fd stmbuf

/-! ## The loops, seen from one descriptor -/

def BuffersAt (d : ℕ) (streams : ℕ → Option Stream) (batch : List LogEvent) : Prop :=
  Buffers (streams d) batch

variable {sent : List Message} {streams : ℕ → Option Stream} {i : ℕ} {ctl : Ctl}

theorem Conveys.at_self {stmbuf : Option Stream} {taken : List LogEvent}
    (h : Conveys Buffers Message.Carries (streams d) taken sent stmbuf) :
    Conveys (BuffersAt d) Message.Carries streams taken sent (update streams d stmbuf) := by
  intro held hheld
  obtain ⟨batches, held', hheld', hrest⟩ := h held hheld
  refine ⟨batches, held', ?_, hrest⟩
  rwa [BuffersAt, update_self]

theorem Conveys.at_other (hi : i ≠ d) (stmbuf : Option Stream) :
    Conveys (BuffersAt d) Message.Carries streams [] [] (update streams i stmbuf) := by
  apply Conveys.silent
  intro held hheld
  rwa [append_nil, BuffersAt, update_of_ne hi.symm]

theorem filter_fd_self (h : ∀ m ∈ sent, m.fd = d) : sent.filter (·.fd = d) = sent :=
  filter_eq_self.2 fun m hm => decide_eq_true (h m hm)

theorem filter_fd_other (hi : i ≠ d) (h : ∀ m ∈ sent, m.fd = i) : sent.filter (·.fd = d) = [] := by
  rw [filter_eq_nil_iff]
  intro m hm hd
  exact hi ((h m hm).symm.trans (of_decide_eq_true hd))

theorem conveys_sendStreams (hcfg : cfg.Accepts) (is : List ℕ) (streams : ℕ → Option Stream) :
    Conveys (BuffersAt d) Message.Carries streams []
      ((sendStreams cfg is streams).2.filter (·.fd = d)) (sendStreams cfg is streams).1 := by
  induction is generalizing streams with
  | nil => exact Conveys.refl streams
  | cons i is ih =>
    rcases hstream : streams i with _ | stmbuf
    · simpa [sendStreams, hstream] using ih streams
    · simp only [sendStreams, hstream, filter_append]
      have hfd := sendAggregatedLogData_fd cfg i stmbuf
      have hrest := ih (update streams i none)
      by_cases hi : i = d
      · subst hi
        have hsend := conveys_send hcfg i stmbuf
        rw [← hstream] at hsend
        rw [filter_fd_self hfd]
        exact (Conveys.at_self hsend).trans hrest
      · rw [filter_fd_other hi hfd]
        exact (Conveys.at_other hi none).trans hrest

/-- **The queue is moved to the streams.** -/
theorem conveys_flushEvents (hcfg : cfg.Accepts) (hd : d < fsEntries) (events : List LogEvent)
    (streams : ℕ → Option Stream) :
    Conveys (BuffersAt d) Message.Carries streams (events.filter (·.fd = d))
      ((flushEvents cfg events streams).2.filter (·.fd = d))
        (flushEvents cfg events streams).1 := by
  induction events generalizing streams with
  | nil => exact Conveys.refl streams
  | cons e events ih =>
    by_cases hrange : 0 ≤ e.fd ∧ e.fd < fsEntries
    · have hrest := ih (update streams e.fd.toNat
        (some (aggregate cfg e.fd.toNat (streams e.fd.toNat) e).1))
      have hfd := aggregate_fd cfg e.fd.toNat (streams e.fd.toNat) e
      rw [flushEvents, if_pos hrange]
      rw [filter_append]
      by_cases he : e.fd = d
      · have hself : e.fd.toNat = d := by rw [he, Int.toNat_natCast]
        rw [hself] at hrest hfd ⊢
        rw [filter_cons_of_pos (by simpa using he), filter_fd_self hfd]
        exact (Conveys.at_self (conveys_aggregate hcfg d (streams d) e)).trans hrest
      · have hother : e.fd.toNat ≠ d := by
          rintro rfl
          exact he (Int.toNat_of_nonneg hrange.1).symm
        rw [filter_cons_of_neg (by simpa using he), filter_fd_other hother hfd]
        exact (Conveys.at_other hother _).trans hrest
    · have he : e.fd ≠ d := by
        intro he
        rw [he] at hrange
        exact hrange ⟨Int.natCast_nonneg d, Int.ofNat_lt.2 hd⟩
      rw [flushEvents, if_neg hrange, filter_cons_of_neg (by simpa using he)]
      exact ih streams

/-! ## Runs, seen from one descriptor -/

def Pending (d : ℕ) (ctl : Ctl) (held : List LogEvent) : Prop :=
  ∃ batch, BuffersAt d ctl.streamAgg batch ∧ held = batch ++ ctl.ringbuf.filter (·.fd = (d : ℤ))

theorem cbufPut_ringbuf (cfg : Config) {ctl' : Ctl} (hring : ctl'.ringbuf = ctl.ringbuf)
    (hstreams : ctl'.streamAgg = ctl.streamAgg) (e : LogEvent) :
    ctl.ringbuf <+: (cbufPut cfg ctl' e).1.ringbuf ∧
      (cbufPut cfg ctl' e).1.streamAgg = ctl.streamAgg := by
  rw [← hring, ← hstreams, cbufPut]
  split_ifs
  · exact ⟨prefix_append _ _, rfl⟩
  · exact ⟨prefix_rfl, rfl⟩

theorem ctlSendLog_ringbuf (cfg : Config) (ctl : Ctl) (fd : ℤ) (path : String) (buf : Block)
    (uid : UInt64) (timestamp : ℕ) :
    ctl.ringbuf <+: (ctlSendLog cfg ctl fd path buf uid timestamp).1.ringbuf ∧
      (ctlSendLog cfg ctl fd path buf uid timestamp).1.streamAgg = ctl.streamAgg := by
  unfold ctlSendLog
  rcases cfg.logType path with _ | logType
  · exact ⟨prefix_rfl, rfl⟩
  · dsimp only
    -- the event is queued in every branch but that of repeated binary data
    split_ifs <;>
      first | exact cbufPut_ringbuf cfg (by rfl) (by rfl) _ | exact ⟨prefix_rfl, rfl⟩

/-- **Every operation conveys the events of every descriptor.** -/
theorem conveys_step (hcfg : cfg.Accepts) (hd : d < fsEntries) (ctl : Ctl) (op : Op) :
    Conveys (Pending d) Message.Carries ctl ((queued cfg ctl op).filter (·.fd = d))
      ((step cfg ctl op).2.filter (·.fd = d)) (step cfg ctl op).1 := by
  cases op with
  | sendLog fd path buf uid timestamp =>
    obtain ⟨⟨more, hring⟩, hstreams⟩ := ctlSendLog_ringbuf cfg ctl fd path buf uid timestamp
    apply Conveys.silent
    rintro held ⟨batch, hbatch, rfl⟩
    refine ⟨batch, ?_, ?_⟩
    · rwa [step, hstreams]
    · rw [step, queued, ← hring, drop_left, filter_append, append_assoc]
  | flushLog =>
    rintro held ⟨batch, hbatch, rfl⟩
    obtain ⟨batches, batch', hbatch', hcarries, heq⟩ :=
      conveys_flushEvents hcfg hd ctl.ringbuf ctl.streamAgg batch hbatch
    refine ⟨batches, batch', ⟨batch', hbatch', (append_nil _).symm⟩, hcarries, ?_⟩
    simpa [queued] using heq
  | sendAll =>
    rintro held ⟨batch, hbatch, rfl⟩
    simp only [step, queued, ctlSendAllAggregatedLogData]
    generalize List.range fsEntries = is
    split_ifs
    · obtain ⟨batches, batch', hbatch', hcarries, heq⟩ :=
        conveys_sendStreams hcfg is ctl.streamAgg batch hbatch
      rw [append_nil] at heq
      refine ⟨batches, _, ⟨batch', hbatch', rfl⟩, hcarries, ?_⟩
      rw [filter_nil, append_nil, heq, append_assoc]
    · refine ⟨[], _, ⟨batch, hbatch, rfl⟩, List.Forall₂.nil, ?_⟩
      rw [filter_nil, append_nil, flatten_nil, nil_append]
  | stopAggregating | setEntry fd entry =>
    apply Conveys.silent
    intro held hheld
    exact (append_nil held).symm ▸ hheld

def Ctl.buffered (ctl : Ctl) (d : ℕ) : List UInt8 :=
  ((ctl.streamAgg d).elim [] Stream.contents) ++
    (ctl.ringbuf.filter (·.fd = (d : ℤ))).flatMap (·.data.bytes)

theorem Pending.buffered {held : List LogEvent} (h : Pending d ctl held) :
    held.flatMap (·.data.bytes) = ctl.buffered d := by
  obtain ⟨batch, hbatch, rfl⟩ := h
  rw [flatMap_append, Ctl.buffered]
  rw [BuffersAt] at hbatch
  rcases hstream : ctl.streamAgg d with _ | stmbuf
  · rw [hstream] at hbatch
    obtain rfl := hbatch
    rfl
  · rw [hstream] at hbatch
    rw [Option.elim_some, hbatch.contents]

/-- **Log data is neither lost nor repeated nor mixed.** The messages of a descriptor and
what is still buffered for it are the data of its events in queue order; each message stands
for a run of these events of one channel, no more than the limit unless it is one event. -/
theorem log_aggregation (cfg : Config) (hcfg : cfg.Accepts) (ops : List Op) (d : ℕ)
    (hd : d < fsEntries) :
    let r := run (step cfg) Ctl.create ops
    let sent := r.2.flatten.filter (·.fd = d)
    let events := (gather (step cfg) (queued cfg) Ctl.create ops).filter (·.fd = (d : ℤ))
    sent.flatMap Message.message ++ r.1.buffered d = events.flatMap (·.data.bytes) ∧
      ∃ batches rest, events = batches.flatten ++ rest ∧
        List.Forall₂ Message.Carries sent batches := by
  intro r sent events
  have hrun := conveys_run (conveys_step hcfg hd) Ctl.create ops
  rw [gather_filter] at hrun
  obtain ⟨batches, held, hheld, hcarries, heq⟩ := hrun [] ⟨[], rfl, rfl⟩
  rw [nil_append] at heq
  have hdata := flatMap_of_carries (fun _ _ h => Message.Carries.message h) hcarries
  refine ⟨?_, batches, held, heq, hcarries⟩
  calc sent.flatMap Message.message ++ r.1.buffered d
      = batches.flatten.flatMap (·.data.bytes) ++ held.flatMap (·.data.bytes) := by
        rw [← hdata, hheld.buffered]
    _ = (batches.flatten ++ held).flatMap (·.data.bytes) := flatMap_append.symm
    _ = events.flatMap (·.data.bytes) := by rw [← heq]

def consoleConfig : Config where
  sourceEnabled _ := true
  nameFilter _ := some fun _ => true
  valueFilter _ := none
  allowBinaryConsole := false
  queueLength := 100

def twoChannels : List Op :=
  [.sendLog 1 "stdout" ⟨[104, 105], by decide⟩ 7 0, .sendLog 1 "stdout" ⟨[0], by decide⟩ 7 1,
    .flushLog, .sendLog 1 "stdout" ⟨[111, 107], by decide⟩ 8 2, .flushLog]

theorem log_aggregation_console :
    let r := run (step consoleConfig) Ctl.create twoChannels
    let sent := r.2.flatten.filter (·.fd = 1)
    let events := (gather (step consoleConfig) (queued consoleConfig) Ctl.create
      twoChannels).filter (·.fd = ((1 : ℕ) : ℤ))
    sent.flatMap Message.message ++ r.1.buffered 1 = events.flatMap (·.data.bytes) ∧
      ∃ batches rest, events = batches.flatten ++ rest ∧
        List.Forall₂ Message.Carries sent batches :=
  log_aggregation consoleConfig (fun _ _ => rfl) twoChannels 1 (by decide)

/-! ## Binary data on the console -/

structure Write where
  fd : ℤ
  path : String
  buf : Block
  uid : UInt64
  timestamp : ℕ

def Write.binary (w : Write) : Bool := isDataBinary w.buf.bytes

def Write.event (w : Write) : LogEvent :=
  ⟨w.fd, ⟨w.uid, w.timestamp, w.path, .console⟩, if w.binary then binaryDataMsg else w.buf⟩

def Ctl.write (cfg : Config) (ctl : Ctl) (w : Write) : Ctl :=
  (ctlSendLog cfg ctl w.fd w.path w.buf w.uid w.timestamp).1

/-- The writes of one descriptor, but of a run of binary ones only the first. -/
def firstOfRuns : Bool → List Write → List Write
  | _, [] => []
  | prev, w :: ws => (if w.binary && prev then [] else [w]) ++ firstOfRuns w.binary ws

/-- No write is lost because the queue is full. -/
def NoOverflow (cfg : Config) : Ctl → List Write → Prop
  | _, [] => True
  | ctl, w :: ws =>
    (w.binary ∧ ctl.contentType w.fd = some .binary ∨ ctl.ringbuf.length < cfg.queueLength) ∧
      NoOverflow cfg (ctl.write cfg w) ws

theorem write_console {w : Write} {c : ContentType} (hcfg : cfg.allowBinaryConsole = false)
    (hpath : cfg.selects w.path .console) (hopen : ctl.contentType w.fd = some c)
    (hroom : w.binary ∧ ctl.contentType w.fd = some .binary ∨
      ctl.ringbuf.length < cfg.queueLength) :
    (ctl.write cfg w).contentType =
        update ctl.contentType w.fd (some (if w.binary then .binary else .text)) ∧
      (ctl.write cfg w).ringbuf =
        ctl.ringbuf ++ if w.binary && c = .binary then [] else [w.event] := by
  have htype : cfg.logType w.path = some .console := if_pos hpath
  have hbuf : isDataBinary w.buf.bytes = w.binary := rfl
  rw [hopen, Option.some.injEq] at hroom
  rw [Ctl.write, ctlSendLog, htype, Write.event]
  cases hbin : w.binary with
  | false =>
    have hput := hroom.resolve_left (by simp [hbin])
    simp [hcfg, hopen, hbuf, hbin, cbufPut, hput]
  | true =>
    by_cases hc : c = .binary
    · simp [hcfg, hopen, hbuf, hbin, hc]
    · have hput := hroom.resolve_left (by simp [hc])
      simp [hcfg, hopen, hbuf, hbin, hc, cbufPut, hput]

/-- **One notice for each run of binary writes.** On every descriptor its writes are queued in
order, with the notice for binary data, and without a binary write right behind another. -/
theorem binary_notices (cfg : Config) (hcfg : cfg.allowBinaryConsole = false) (ctl : Ctl)
    (ws : List Write) (hpath : ∀ w ∈ ws, cfg.selects w.path .console)
    (hopen : ∀ w ∈ ws, (ctl.contentType w.fd).isSome) (hroom : NoOverflow cfg ctl ws) (d : ℤ) :
    (ws.foldl (Ctl.write cfg) ctl).ringbuf.filter (·.fd = d) = ctl.ringbuf.filter (·.fd = d) ++
        (firstOfRuns (ctl.contentType d = some .binary) (ws.filter (·.fd = d))).map
          Write.event := by
  induction ws generalizing ctl with
  | nil => exact (append_nil _).symm
  | cons w ws ih =>
    rw [forall_mem_cons] at hpath hopen
    obtain ⟨c, hc⟩ := Option.isSome_iff_exists.1 hopen.1
    obtain ⟨htype, hring⟩ := write_console hcfg hpath.1 hc hroom.1
    have hopen' : ∀ w' ∈ ws, ((ctl.write cfg w).contentType w'.fd).isSome := by
      intro w' hw'
      rw [htype, update_apply]
      split
      · rfl
      · exact hopen.2 w' hw'
    rw [foldl_cons, ih _ hpath.2 hopen' hroom.2, hring, htype, filter_append, append_assoc]
    congr 1
    by_cases hfd : w.fd = d
    · subst hfd
      rw [filter_cons_of_pos (by simp), firstOfRuns, update_self, hc]
      cases w.binary <;> by_cases hbin : c = .binary <;> simp [Write.event, hbin]
    · rw [filter_cons_of_neg (by simpa using hfd), update_of_ne (Ne.symm hfd)]
      split_ifs <;> simp [Write.event, hfd]

theorem binary_notices_three :
    let ctl := { Ctl.create with contentType := fun _ => some .unknown }
    let w := fun b => (⟨1, "stdout", ⟨[b], Nat.one_lt_two_pow (by decide)⟩, 0, 0⟩ : Write)
    (([0, 0, 65].map w).foldl (Ctl.write consoleConfig) ctl).ringbuf.filter (·.fd = 1) =
      [(w 0).event, (w 65).event] := by
  intro ctl w
  have hroom : NoOverflow consoleConfig ctl ([0, 0, 65].map w) :=
    ⟨.inr (by decide), .inr (by decide), .inr (by decide), trivial⟩
  exact binary_notices consoleConfig rfl ctl _ (by simp [w]; decide) (by simp [ctl]) hroom 1

end AppView.Logs

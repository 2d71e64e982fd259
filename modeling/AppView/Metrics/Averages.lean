import AppView.Metrics.Timed

/-!
# The average of durations

A duration is reported as an average: the sum of the times over their number, in the unit of
the metric. `divisor` is what the sum is divided by. **`divisor_of_lt`**: it is the exact
product below `2 ^ 31`; **`divisor_eq_zero_iff`**: it is zero where the product is a multiple
of `2 ^ 32`, which for the microseconds of files is every multiple of `2 ^ 29` operations.
-/

namespace AppView.Metrics

open AppView.Framework List

/-! ## The division -/

def divisor (factor : ℕ) (num : UInt64) : UInt64 :=
  u64 (cInt (factor * (cInt num.toNat).toNat))

def totalDivisor (factor num : UInt64) : UInt64 := factor * u64 (cInt num.toNat)

def average (factor : ℕ) (total num : UInt64) : ℕ := total.toNat / (num.toNat * factor)

theorem meanDuration_eq (factor : ℕ) (total num : UInt64) : meanDuration factor total num =
      if cInt num.toNat ≥ 1 then total / divisor factor num else 0 :=
  rfl

section Exact

variable {factor : ℕ} {total num : UInt64}

theorem cInt_num (hf : 0 < factor) (h : num.toNat * factor < 2 ^ 31) : cInt num.toNat = num.toNat :=
  cInt_of_lt (lt_of_le_of_lt (Nat.le_mul_of_pos_right _ hf) h)

/-- **Below `2 ^ 31` the divisor is the product.** -/
theorem divisor_of_lt (hf : 0 < factor) (h : num.toNat * factor < 2 ^ 31) :
    (divisor factor num).toNat = num.toNat * factor := by
  unfold divisor
  rw [cInt_num hf h, Int.toNat_natCast, Nat.mul_comm, cInt_of_lt h,
    u64_toNat (Int.natCast_nonneg _) (by omega), Int.toNat_natCast]

theorem meanDuration_of_lt (hf : 0 < factor) (h : num.toNat * factor < 2 ^ 31) :
    (meanDuration factor total num).toNat = average factor total num := by
  rw [meanDuration_eq, cInt_num hf h, average]
  by_cases hn : num.toNat = 0
  · rw [hn]
    simp
  · rw [if_pos (by omega), UInt64.toNat_div, divisor_of_lt hf h]

theorem totalDivisor_of_lt {factor : UInt64} (hf : factor.toNat ≤ 2 ^ 32) (h : num.toNat < 2 ^ 31) :
    (totalDivisor factor num).toNat = num.toNat * factor.toNat := by
  have hprod : factor.toNat * num.toNat < 2 ^ 64 :=
    calc factor.toNat * num.toNat ≤ 2 ^ 32 * num.toNat := Nat.mul_le_mul_right _ hf
      _ < 2 ^ 64 := by omega
  unfold totalDivisor
  rw [UInt64.toNat_mul, cInt_of_lt h, u64_toNat (Int.natCast_nonneg _) (by omega),
    Int.toNat_natCast, Nat.mod_eq_of_lt hprod, Nat.mul_comm]

end Exact

section Wrapped

variable {factor : ℕ} {total num : UInt64}

theorem u64_eq_zero_iff {x : ℤ} (hlo : -2 ^ 31 ≤ x) (hhi : x < 2 ^ 31) : u64 x = 0 ↔ x = 0 := by
  have hval : (u64 x).toNat = (x % 2 ^ 64).toNat := by
    unfold u64
    rw [UInt64.toNat_ofNat', Nat.mod_eq_of_lt (by omega)]
  rw [← UInt64.toNat_inj, hval]
  have hz : (0 : UInt64).toNat = 0 := rfl
  omega

/-- **Where the division is one by zero.** -/
theorem divisor_eq_zero_iff (h : num.toNat < 2 ^ 31) :
    divisor factor num = 0 ↔ 2 ^ 32 ∣ num.toNat * factor := by
  unfold divisor
  rw [cInt_of_lt h, Int.toNat_natCast, Nat.mul_comm]
  have hlo : -2 ^ 31 ≤ cInt (num.toNat * factor) := by
    unfold cInt
    split <;> omega
  rw [u64_eq_zero_iff hlo (cInt_lt _)]
  unfold cInt
  split <;> omega

theorem meanDuration_wrapped (hnum : num.toNat < 2 ^ 31)
    (hlo : 2 ^ 31 ≤ num.toNat * factor) (hhi : num.toNat * factor < 2 ^ 32)
    (ht : total.toNat < 2 ^ 63) : meanDuration factor total num = 0 := by
  have hint : cInt (num.toNat * factor) = (num.toNat * factor : ℕ) - 2 ^ 32 := by
    unfold cInt
    rw [if_neg (by omega), Nat.mod_eq_of_lt hhi]
  have hdiv : 2 ^ 63 ≤ (divisor factor num).toNat := by
    unfold divisor u64
    rw [cInt_of_lt hnum, Int.toNat_natCast, Nat.mul_comm, hint, UInt64.toNat_ofNat',
      Nat.mod_eq_of_lt (by omega)]
    omega
  rw [meanDuration_eq]
  split
  · rw [← UInt64.toNat_inj, UInt64.toNat_div]
    exact Nat.div_eq_of_lt (lt_of_lt_of_le ht hdiv)
  · rfl

end Wrapped

/-! ## Files: the duration in the event of a close -/

def getFSDuration (fs : FsInfo) : UInt64 :=
  meanDuration 1000 (fs.ctr .totalDuration).evt (fs.ctr .numDuration).evt

/-! ## DNS -/

structure DnsFlags where
  /-- `cfgMtcWatchEnable(..., CFG_MTC_DNS)` -/
  watchDns : Bool
  /-- `ctlEvtSourceEnabled(g_ctl, CFG_SRC_DNS)` -/
  srcDns : Bool
  /-- `g_summary.net.dns` -/
  summaryDns : Bool
deriving DecidableEq, Repr

structure DnsInfo where
  net : NetInfo := {}
  dnsName : String := ""

def postDNSState (cfg : Config) (flags : DnsFlags) (ctrs : MetricCounters) (fd : ℤ)
    (type : MetricT) (info : Option DnsInfo) (duration : UInt64) (domain : Option String) :
    Bool × List DnsInfo :=
  let mtcNeedsReporting := !flags.summaryDns
  let needToPost :=
    cfg.srcMetric || flags.srcDns || (cfg.mtcEnabled && mtcNeedsReporting)
  if needToPost then
    let info : DnsInfo := info.getD {}
    let netp := { info.net with fd := fd, dataType := type }
    let netp :=
      if duration > 0 then { netp with ctr := addTo netp.ctr .totalDuration duration }
      else netp
    (mtcNeedsReporting, [⟨{ netp with counters := ctrs }, domain.getD info.dnsName⟩])
  else (false, [])

def updateDNSDuration (cfg : Config) (flags : DnsFlags) (s : State) (fd size : ℤ)
    (entryName : String) (pathname : Option String) : State × List DnsInfo :=
  let s := s.globals fun c => addTo (addTo c .dnsDurationNum 1) .dnsDurationTotal 0
  let info := if hasNetEntry s fd then some ⟨s.netinfo fd, entryName⟩ else none
  let (rc, posted) :=
    postDNSState cfg flags s.ctrs fd .dnsDuration info (u64 size) pathname
  let s :=
    if rc then s.globals fun c => swapMtc (swapMtc c .dnsDurationNum) .dnsDurationTotal
    else s
  (s.globals fun c => swapEvt (swapEvt c .dnsDurationNum) .dnsDurationTotal, posted)

def dnsCounted (info : DnsInfo) : MetricCounters :=
  let duration := info.net.ctr .totalDuration
  let ctrs := addTo info.net.counters .dnsDurationNum 1
  Function.update ctrs .dnsDurationTotal
    ⟨atomicAddU64 (ctrs .dnsDurationTotal).mtc duration.mtc,
      atomicAddU64 (ctrs .dnsDurationTotal).evt duration.evt⟩

def atLeastOne (num dur : UInt64) : UInt64 :=
  if cInt num.toNat ≥ 1 ∧ dur = 0 then 1 else dur

def doDNSDuration (cfg : Config) (flags : DnsFlags) (info : DnsInfo) : DnsInfo × List Sent :=
  if info.dnsName = "" then (info, [])
  else
    let evt (dur num : UInt64) : Sent :=
      { name := "dns.duration", value := longLong dur, type := .deltaMs,
        numops := some (cInt num.toNat), unit := "millisecond" }
    let ctrs := dnsCounted info
    let num := ctrs .dnsDurationNum
    let total := ctrs .dnsDurationTotal
    let dur := atLeastOne num.evt (meanDuration 1000000 total.evt num.evt)
    let events := if dur ≠ 0 then cmdSendEvent (evt dur num.evt) else []
    let ctrs :=
      if dur ≠ 0 then swapEvt (swapEvt ctrs .dnsDurationNum) .dnsDurationTotal else ctrs
    let after (ctrs : MetricCounters) : DnsInfo :=
      { info with net := { info.net with counters := ctrs } }
    if flags.summaryDns || !flags.watchDns then (after ctrs, events)
    else
      let dur := atLeastOne num.mtc (meanDuration 1000000 total.mtc num.mtc)
      if dur = 0 then (after ctrs, events)
      else
        (after (swapMtc (swapMtc ctrs .dnsDurationNum) .dnsDurationTotal),
          events ++ cmdSendMetric cfg (evt dur num.mtc))

def doTotalDNSDuration (cfg : Config) (flags : DnsFlags) (ctrs : MetricCounters) :
    MetricCounters × List Sent :=
  if !flags.summaryDns || !flags.watchDns then (ctrs, [])
  else
    reportTotalDuration cfg ctrs "dns.duration" "millisecond" .dnsDurationTotal
      .dnsDurationNum .deltaMs 1000000

/-! ## What is sent -/

def values (toMtc : Bool) (name : String) (sent : List Sent) : List ℤ :=
  (sent.filter fun e => e.toMtc = toMtc && e.name = name).map Sent.value

variable (toMtc : Bool) (name : String)

@[simp] theorem values_nil : values toMtc name [] = [] := rfl

@[simp] theorem values_append (sent sent' : List Sent) :
    values toMtc name (sent ++ sent') = values toMtc name sent ++ values toMtc name sent' := by
  simp [values]

@[simp] theorem values_cmdSendEvent (e : Sent) : values toMtc name (cmdSendEvent e) =
      if toMtc = false ∧ e.name = name then [e.value] else [] := by
  by_cases hname : e.name = name <;> cases toMtc <;> simp [values, cmdSendEvent, hname]

@[simp] theorem values_cmdSendMetric (cfg : Config) (e : Sent) :
    values toMtc name (cmdSendMetric cfg e) =
      if cfg.mtcEnabled = true ∧ toMtc = true ∧ e.name = name then [e.value] else [] := by
  unfold cmdSendMetric
  by_cases hname : e.name = name <;> cases toMtc <;> cases cfg.mtcEnabled <;>
    simp [values, hname]

def unlessZero (dur : UInt64) : List ℤ := if dur = 0 then [] else [longLong dur]

section Sent

variable (cfg : Config) (flags : DnsFlags) (summary : Summary) (ctrs : MetricCounters)
  (source : ControlType)

theorem events_doFSDuration (fs : FsInfo) (op : String) :
    values false "fs.duration" (doFSDuration cfg summary ctrs fs source op).sent =
      unlessZero (atLeastOne (fs.ctr .numDuration).evt (getFSDuration fs)) := by
  have hdur : (if cInt (fs.ctr .numDuration).evt.toNat ≥ 1 ∧
      meanDuration 1000 (fs.ctr .totalDuration).evt (fs.ctr .numDuration).evt = 0 then
      defaultMinDurationTime
      else meanDuration 1000 (fs.ctr .totalDuration).evt (fs.ctr .numDuration).evt) =
      atLeastOne (fs.ctr .numDuration).evt (getFSDuration fs) := rfl
  unfold doFSDuration unlessZero
  simp only [hdur]
  by_cases hzero : atLeastOne (fs.ctr .numDuration).evt (getFSDuration fs) = 0
  · rw [if_neg (not_not.mpr hzero), if_pos hzero]
    split_ifs <;> simp
  · rw [if_pos hzero, if_neg hzero]
    split_ifs <;> simp

theorem metrics_doFSDuration (fs : FsInfo) (op : String) :
    values true "fs.duration" (doFSDuration cfg summary ctrs fs source op).sent =
      if cfg.mtcEnabled = true ∧ notReported summary.fsReadWrite cfg.watchFs source = false then
        unlessZero (meanDuration 1000 (fs.ctr .totalDuration).mtc (fs.ctr .numDuration).mtc)
      else [] := by
  unfold doFSDuration unlessZero
  dsimp only
  generalize meanDuration 1000 _ (fs.ctr .numDuration).evt = dur
  split_ifs <;> simp_all

theorem values_closeEvent (toMtc : Bool) (net : NetInfo) :
    values toMtc "net.duration" (doNetOpenCloseEvent "net.close" ctrs net) = [] := by
  unfold doNetOpenCloseEvent
  split <;> simp

theorem values_doNetDuration (net : NetInfo) :
    (values false "net.duration" (doNetDuration cfg summary ctrs net source).sent =
      if cfg.srcNet = true then
        unlessZero (meanDuration 1000000 (net.ctr .totalDuration).evt (net.ctr .numDuration).evt)
      else []) ∧
    values true "net.duration" (doNetDuration cfg summary ctrs net source).sent =
      if cfg.srcNet = true ∧ cfg.mtcEnabled = true ∧
          notReported summary.netOpenClose cfg.watchNet source = false then
        unlessZero (meanDuration 1000000 (net.ctr .totalDuration).mtc (net.ctr .numDuration).mtc)
      else [] := by
  unfold doNetDuration unlessZero
  dsimp only
  generalize meanDuration 1000000 (net.ctr .totalDuration).evt (net.ctr .numDuration).evt = dur
  constructor <;> split_ifs <;> simp_all [values_closeEvent]

theorem values_doDNSDuration {info : DnsInfo} (hname : info.dnsName ≠ "") :
    values false "dns.duration" (doDNSDuration cfg flags info).2 =
      unlessZero (atLeastOne (dnsCounted info .dnsDurationNum).evt
        (meanDuration 1000000 (dnsCounted info .dnsDurationTotal).evt
          (dnsCounted info .dnsDurationNum).evt)) ∧
    values true "dns.duration" (doDNSDuration cfg flags info).2 =
      if cfg.mtcEnabled = true ∧ flags.summaryDns = false ∧ flags.watchDns = true then
        unlessZero (atLeastOne (dnsCounted info .dnsDurationNum).mtc
          (meanDuration 1000000 (dnsCounted info .dnsDurationTotal).mtc
            (dnsCounted info .dnsDurationNum).mtc))
      else [] := by
  unfold doDNSDuration unlessZero
  rw [if_neg hname]
  dsimp only
  generalize atLeastOne (dnsCounted info .dnsDurationNum).evt
    (meanDuration 1000000 (dnsCounted info .dnsDurationTotal).evt
      (dnsCounted info .dnsDurationNum).evt) = dur
  constructor <;> split_ifs <;> simp_all

def totalMean (factor total num : UInt64) : UInt64 :=
  if cInt num.toNat ≥ 1 then total / totalDivisor factor num else 0

theorem metrics_reportTotalDuration (metric units : String) (value num : Ctr)
    (agg : DataType) (factor : UInt64) :
    values true metric (reportTotalDuration cfg ctrs metric units value num agg factor).2 =
      if cfg.mtcEnabled = true then
        unlessZero (totalMean factor (ctrs value).mtc (ctrs num).mtc)
      else [] := by
  have hmean : (if cInt (ctrs num).mtc.toNat ≥ 1 then
      (ctrs value).mtc / (factor * u64 (cInt (ctrs num).mtc.toNat)) else 0) =
      totalMean factor (ctrs value).mtc (ctrs num).mtc := rfl
  unfold reportTotalDuration unlessZero
  simp only [hmean]
  split_ifs <;> simp_all

end Sent

/-! ## Exact averages -/

/-- Zeros are not reported. -/
def sentAverage (v : ℕ) : List ℤ := if v = 0 then [] else [(v : ℤ)]

/-- A place where an average is reported: `num` times with the sum `total` were observed, and
`used` is the count that the sum is divided by. -/
structure Site where
  factor : ℕ
  total : UInt64
  num : UInt64
  used : UInt64
  div : UInt64
  sent : List ℤ

/-- **An exact average**: the count is not truncated, the divisor is its product with the
factor, it is not zero, and what is sent is the average of the observed times. -/
structure Site.Exact (x : Site) : Prop where
  count : cInt x.used.toNat = x.used.toNat
  divisor : x.div.toNat = x.used.toNat * x.factor
  divides : x.div ≠ 0
  value : x.sent = sentAverage (average x.factor x.total x.num)

theorem Site.Exact.used_pos {x : Site} (h : x.Exact) : 1 ≤ x.used.toNat := by
  by_contra hzero
  have hdiv := h.divisor
  rw [Nat.eq_zero_of_not_pos hzero, Nat.zero_mul] at hdiv
  exact h.divides (UInt64.toNat_inj.mp hdiv)

theorem Site.Exact.used_lt {x : Site} (h : x.Exact) : x.used.toNat < 2 ^ 31 := by
  have hlt := cInt_lt x.used.toNat
  rw [h.count] at hlt
  omega

section ExactValues

variable {factor : ℕ} {total num : UInt64}

theorem average_lt (hf : 1 < factor) : average factor total num < 2 ^ 63 := by
  have ht := total.toNat_lt
  unfold average
  by_cases hn : num.toNat = 0
  · rw [hn, Nat.zero_mul, Nat.div_zero]
    omega
  · have hprod : 2 ≤ num.toNat * factor :=
      le_trans hf (Nat.le_mul_of_pos_left factor (Nat.pos_of_ne_zero hn))
    calc total.toNat / (num.toNat * factor)
      _ ≤ total.toNat / 2 := Nat.div_le_div_left hprod (by omega)
      _ < 2 ^ 63 := by omega

theorem unlessZero_of_toNat {dur : UInt64} {v : ℕ} (h : dur.toNat = v) (hv : v < 2 ^ 63) :
    unlessZero dur = sentAverage v := by
  have hzero : dur = 0 ↔ v = 0 := by
    rw [← h, ← UInt64.toNat_inj]
    rfl
  unfold unlessZero sentAverage longLong
  simp only [hzero, h, if_pos hv]

theorem divisor_ne_zero (hf : 0 < factor) (hn : 1 ≤ num.toNat)
    (h : num.toNat * factor < 2 ^ 31) : divisor factor num ≠ 0 := by
  intro hzero
  have hdiv := divisor_of_lt hf h
  rw [hzero] at hdiv
  exact absurd hdiv.symm (Nat.mul_pos hn hf).ne'

/-- The divisor is the product only where the product is an `int`. -/
theorem mul_lt_of_divisor (hf : factor ≤ 2 ^ 32) (hcount : cInt num.toNat = num.toNat)
    (hdiv : (divisor factor num).toNat = num.toNat * factor) : num.toNat * factor < 2 ^ 31 := by
  have hnum : num.toNat < 2 ^ 31 := by
    have hlt := cInt_lt num.toNat
    rw [hcount] at hlt
    omega
  have hprod : num.toNat * factor < 2 ^ 63 :=
    calc num.toNat * factor ≤ num.toNat * 2 ^ 32 := Nat.mul_le_mul_left _ hf
      _ < 2 ^ 63 := by omega
  unfold divisor u64 at hdiv
  rw [hcount, Int.toNat_natCast, Nat.mul_comm, UInt64.toNat_ofNat',
    Nat.mod_eq_of_lt (by omega)] at hdiv
  generalize num.toNat * factor = p at *
  unfold cInt at hdiv
  split at hdiv <;> omega

/-- **The average is exact if and only if the product of the count and the factor is an
`int`.** -/
theorem exact_mean_iff (hf : 1 < factor) (hf' : factor ≤ 2 ^ 32) :
    Site.Exact ⟨factor, total, num, num, divisor factor num,
      unlessZero (meanDuration factor total num)⟩ ↔
      1 ≤ num.toNat ∧ num.toNat * factor < 2 ^ 31 := by
  constructor
  · intro hexact
    exact ⟨hexact.used_pos, mul_lt_of_divisor hf' hexact.count hexact.divisor⟩
  · rintro ⟨hn, h⟩
    exact ⟨cInt_num (by omega) h, divisor_of_lt (by omega) h, divisor_ne_zero (by omega) hn h,
      unlessZero_of_toNat (meanDuration_of_lt (by omega) h) (average_lt hf)⟩

theorem unlessZero_atLeastOne {used : UInt64} (hf : 1 < factor) (hn : 1 ≤ used.toNat)
    (h : used.toNat * factor < 2 ^ 31) :
    unlessZero (atLeastOne used (meanDuration factor total used)) =
      [((max 1 (average factor total used) : ℕ) : ℤ)] := by
  have hmean : (meanDuration factor total used).toNat = average factor total used :=
    meanDuration_of_lt (by omega) h
  have hint : cInt used.toNat = used.toNat := cInt_num (by omega) h
  unfold atLeastOne
  by_cases hzero : meanDuration factor total used = 0
  · have havg : average factor total used = 0 := by
      rw [← hmean, hzero]
      rfl
    rw [if_pos ⟨by omega, hzero⟩, havg]
    rfl
  · have havg : average factor total used ≠ 0 := by
      rw [← hmean]
      exact fun h0 => hzero (UInt64.toNat_inj.mp h0)
    rw [if_neg fun hand => hzero hand.2, unlessZero_of_toNat hmean (average_lt hf), sentAverage,
      if_neg havg, Nat.max_eq_right (by omega)]

/-- **Where an average of zero is reported as one.** -/
theorem exact_atLeastOne_iff {used : UInt64} (hf : 1 < factor) (hf' : factor ≤ 2 ^ 32) :
    Site.Exact ⟨factor, total, num, used, divisor factor used,
      unlessZero (atLeastOne used (meanDuration factor total used))⟩ ↔
      1 ≤ used.toNat ∧ used.toNat * factor < 2 ^ 31 ∧
        max 1 (average factor total used) = average factor total num := by
  have hvalue : ∀ v w : ℕ, 1 ≤ v → ([(v : ℤ)] = sentAverage w ↔ v = w) := by
    intro v w hv
    unfold sentAverage
    split
    · simp only [cons_ne_nil, false_iff]
      omega
    · simp
  constructor
  · intro hexact
    have hn : 1 ≤ used.toNat := hexact.used_pos
    have h := mul_lt_of_divisor hf' hexact.count hexact.divisor
    refine ⟨hn, h, ?_⟩
    have hsent : unlessZero (atLeastOne used (meanDuration factor total used)) =
        sentAverage (average factor total num) := hexact.value
    rw [unlessZero_atLeastOne hf hn h] at hsent
    exact (hvalue _ _ (le_max_left _ _)).mp hsent
  · rintro ⟨hn, h, heq⟩
    refine ⟨cInt_num (by omega) h, divisor_of_lt (by omega) h,
      divisor_ne_zero (by omega) hn h, ?_⟩
    rw [unlessZero_atLeastOne hf hn h]
    exact (hvalue _ _ (le_max_left _ _)).mpr heq

/-- **A total is exact if and only if its count is an `int`**: the product is a `uint64_t`. -/
theorem exact_total_iff (factor : UInt64) (hlo : 1 < factor.toNat)
    (hhi : factor.toNat ≤ 2 ^ 32) :
    Site.Exact ⟨factor.toNat, total, num, num, totalDivisor factor num,
      unlessZero (totalMean factor total num)⟩ ↔ 1 ≤ num.toNat ∧ num.toNat < 2 ^ 31 := by
  constructor
  · intro hexact
    exact ⟨hexact.used_pos, hexact.used_lt⟩
  · rintro ⟨hn, h⟩
    have hdiv : (totalDivisor factor num).toNat = num.toNat * factor.toNat :=
      totalDivisor_of_lt hhi h
    refine ⟨cInt_of_lt h, hdiv, ?_, unlessZero_of_toNat ?_ (average_lt hlo)⟩
    · rintro (hzero : totalDivisor factor num = 0)
      rw [hzero] at hdiv
      exact absurd hdiv.symm (Nat.mul_pos hn (by omega)).ne'
    · rw [totalMean, cInt_of_lt h, if_pos (by omega), UInt64.toNat_div, hdiv, average]

end ExactValues

/-! ## What the counters hold after a run of updates -/

def Tallies (num total : UInt64) (times : List ℕ) : Prop :=
  num.toNat = min times.length cap ∧ total.toNat = min times.sum cap

theorem Tallies.add {num total : UInt64} {times : List ℕ} (h : Tallies num total times)
    (x : UInt64) : Tallies (atomicAddU64 num 1) (atomicAddU64 total x) (times ++ [x.toNat]) := by
  have h1 : (1 : UInt64).toNat = 1 := rfl
  refine ⟨?_, ?_⟩
  · rw [atomicAddU64_toNat, h.1, length_append, length_singleton, h1, cap]
    omega
  · rw [atomicAddU64_toNat, h.2, sum_append, sum_singleton, cap]
    omega

def Op.isUpdate : Op → Bool
  | .update .. => true
  | _ => false

theorem tallies_process {cfg : Config} {num total : State → UInt64} {times : State → Op → List ℕ}
    (hstep : ∀ (s : State) (op : Op) (before : List ℕ), op.isUpdate = true →
      Tallies (num s) (total s) before →
      Tallies (num (step cfg s op).1) (total (step cfg s op).1) (before ++ times s op))
    {ops : List Op} (hops : ∀ op ∈ ops, op.isUpdate = true) {s : State}
    {before : List ℕ} (h : Tallies (num s) (total s) before) :
    Tallies (num (process cfg s ops).1) (total (process cfg s ops).1)
      (before ++ gather (step cfg) times s ops) := by
  induction ops generalizing s before with
  | nil =>
    rw [gather, append_nil]
    exact h
  | cons op ops ih =>
    obtain ⟨hop, hrest⟩ := forall_mem_cons.mp hops
    have hnext := ih hrest (hstep s op before hop h)
    rwa [append_assoc] at hnext

section Entries

variable (cfg : Config) (s : State)

theorem foldl_swapMtc_evt {ι : Type} [DecidableEq ι] (adds : List (ι × UInt64))
    (c : ι → CountersElement) (m : ι) :
    (adds.foldl (fun c a => swapMtc c a.1) c m).evt = (c m).evt := by
  induction adds generalizing c with
  | nil => rfl
  | cons a adds ih =>
    rw [foldl_cons, ih]
    by_cases h : m = a.1
    · rw [h, swapMtc_same]
    · rw [swapMtc_ne c h]

theorem updateFs_evt (fd : ℤ) (type : MetricT) (adds : List (FsCtr × UInt64))
    (globals : List (Ctr × UInt64)) (funcop pathname : Option String) (fd' : ℤ) (c : FsCtr) :
    (((updateFs cfg s fd type adds globals funcop pathname).fsinfo fd').ctr c).evt =
      if fd' = fd then ((adds.foldl (fun c a => addTo c a.1 a.2) (s.fsinfo fd).ctr) c).evt
      else ((s.fsinfo fd').ctr c).evt := by
  unfold updateFs
  dsimp only
  rw [Timed.postFSState_state]
  by_cases hfd : fd' = fd
  · subst hfd
    rw [if_pos rfl]
    split
    · simp [State.fsCtr, State.setFs, State.globals, foldl_swapMtc_evt]
    · simp [State.fsCtr, State.setFs, State.globals]
  · rw [if_neg hfd]
    split <;> simp [State.fsCtr, State.setFs, State.globals, hfd]

def evtTimes (fs : FsInfo) : UInt64 × UInt64 :=
  ((fs.ctr .numDuration).evt, (fs.ctr .totalDuration).evt)

theorem evtTimes_rule {type : MetricT} (ht : type ≠ .fsDuration) (fd' : ℤ) :
    UpdateRule cfg type fun s s' => evtTimes (s'.fsinfo fd') = evtTimes (s.fsinfo fd') where
  refl _ := rfl
  trans h h' := h'.trans h
  fsCtr s fd f hf := by
    have hno : fsTouched type .numDuration = false ∧ fsTouched type .totalDuration = false := by
      cases type <;> first | exact ⟨rfl, rfl⟩ | exact absurd rfl ht
    by_cases hfd : fd' = fd
    · subst hfd
      simp [evtTimes, State.fsCtr, State.setFs, hf _ _ hno.1, hf _ _ hno.2]
    · simp [State.fsCtr, State.setFs, hfd]
  netCtr _ _ _ _ := rfl
  netCounters _ _ _ _ := rfl
  globals _ _ _ := rfl
  start _ _ _ := rfl
  postFs _ _ _ _ _ := by rw [Timed.postFSState_state]
  postNet _ _ _ := by rw [Timed.postNetState_state]

/-- **Only the update of a duration changes the duration in an entry.** -/
theorem doUpdateState_evtTimes {type : MetricT} (ht : type ≠ .fsDuration) (fd size : ℤ)
    (funcop pathname : Option String) (now : UInt64) (fd' : ℤ) :
    evtTimes ((doUpdateState cfg s type fd size funcop pathname now).fsinfo fd') =
      evtTimes (s.fsinfo fd') :=
  (evtTimes_rule cfg ht fd').doUpdateState fd size funcop pathname now

end Entries

def fileTimes (fd : ℤ) (_ : State) : Op → List ℕ
  | .update .fsDuration fd' size .. =>
    if fd' = fd && checkFSEntry fd then [(u64 size).toNat] else []
  | _ => []

section Runs

variable {cfg : Config} {ops : List Op}

/-- **Any number of operations on a file** is in the event copies of its entry: they are
never reset. -/
theorem entry_counted (hops : ∀ op ∈ ops, op.isUpdate = true) (verbosity : ℕ) (fd : ℤ) :
    Tallies (((process cfg (init verbosity) ops).1.fsinfo fd).ctr .numDuration).evt
      (((process cfg (init verbosity) ops).1.fsinfo fd).ctr .totalDuration).evt
      (gather (step cfg) (fileTimes fd) (init verbosity) ops) := by
  have hstep : ∀ (s : State) (op : Op) (before : List ℕ), op.isUpdate = true →
      Tallies (evtTimes (s.fsinfo fd)).1 (evtTimes (s.fsinfo fd)).2 before →
      Tallies (evtTimes ((step cfg s op).1.fsinfo fd)).1
        (evtTimes ((step cfg s op).1.fsinfo fd)).2 (before ++ fileTimes fd s op) := by
    intro s op before hop h
    cases op with
    | update type fd' size funcop pathname now =>
      by_cases ht : type = .fsDuration
      · subst ht
        simp only [step, doUpdateState, fileTimes]
        by_cases hentry : checkFSEntry fd' = true
        · rw [if_pos hentry]
          simp only [evtTimes, updateFs_evt]
          by_cases hfd : fd = fd'
          · subst hfd
            rw [if_pos rfl, if_pos rfl, if_pos (by simp [hentry])]
            have hadd := h.add (u64 size)
            simpa [evtTimes, addToInterfaceCounts] using hadd
          · rw [if_neg hfd, if_neg hfd, if_neg (by simp [Ne.symm hfd]), append_nil]
            exact h
        · rw [if_neg hentry, if_neg, append_nil]
          · exact h
          · rintro hand
            obtain ⟨heq, hcheck⟩ := Bool.and_eq_true_iff.mp hand
            rw [of_decide_eq_true heq] at hentry
            exact hentry hcheck
      · have hnone : fileTimes fd s (.update type fd' size funcop pathname now) = [] := by
          cases type <;> first | rfl | exact absurd rfl ht
        rw [hnone, append_nil, step, doUpdateState_evtTimes cfg s ht]
        exact h
    | _ => cases hop
  have hinit : Tallies (evtTimes ((init verbosity).fsinfo fd)).1
      (evtTimes ((init verbosity).fsinfo fd)).2 [] := ⟨rfl, rfl⟩
  exact tallies_process hstep hops hinit

end Runs

/-! ## The averages -/

section Sites

variable (cfg : Config) (flags : DnsFlags) (summary : Summary) (ctrs : MetricCounters)
  (source : ControlType)

/-- The event of an operation on a file, and the event and the metric of a lookup. The lookup
is in the counters of the message when `doDNSMetricName` counts it once more. -/
def atLeastOneSites (fs : FsInfo) (op : String) (info : DnsInfo) : List Site :=
  let file := (doFSDuration cfg summary ctrs fs source op).sent
  let dns := (doDNSDuration cfg flags info).2
  let site (factor : ℕ) (total num used : UInt64) (sent : List ℤ) : Site :=
    ⟨factor, total, num, used, divisor factor used, sent⟩
  [site 1000 (fs.ctr .totalDuration).evt (fs.ctr .numDuration).evt (fs.ctr .numDuration).evt
    (values false "fs.duration" file)] ++
  (if info.dnsName ≠ "" then
    [site 1000000 (dnsCounted info .dnsDurationTotal).evt
      (info.net.counters .dnsDurationNum).evt (dnsCounted info .dnsDurationNum).evt
      (values false "dns.duration" dns)] else []) ++
  (if info.dnsName ≠ "" ∧ cfg.mtcEnabled = true ∧ flags.summaryDns = false ∧
      flags.watchDns = true then
    [site 1000000 (dnsCounted info .dnsDurationTotal).mtc
      (info.net.counters .dnsDurationNum).mtc (dnsCounted info .dnsDurationNum).mtc
      (values true "dns.duration" dns)] else [])

/-- The duration in the event of a close, the metric of a file, and the event and the metric
of a connection. -/
def meanSites (fs : FsInfo) (op : String) (net : NetInfo) : List Site :=
  let file := (doFSDuration cfg summary ctrs fs source op).sent
  let conn := (doNetDuration cfg summary ctrs net source).sent
  let site (factor : ℕ) (total num : UInt64) (sent : List ℤ) : Site :=
    ⟨factor, total, num, num, divisor factor num, sent⟩
  [site 1000 (fs.ctr .totalDuration).evt (fs.ctr .numDuration).evt
    (unlessZero (getFSDuration fs))] ++
  (if cfg.mtcEnabled = true ∧ notReported summary.fsReadWrite cfg.watchFs source = false then
    [site 1000 (fs.ctr .totalDuration).mtc (fs.ctr .numDuration).mtc
      (values true "fs.duration" file)] else []) ++
  (if cfg.srcNet = true then
    [site 1000000 (net.ctr .totalDuration).evt (net.ctr .numDuration).evt
      (values false "net.duration" conn)] else []) ++
  (if cfg.srcNet = true ∧ cfg.mtcEnabled = true ∧
      notReported summary.netOpenClose cfg.watchNet source = false then
    [site 1000000 (net.ctr .totalDuration).mtc (net.ctr .numDuration).mtc
      (values true "net.duration" conn)] else [])

def totalSites : List Site :=
  let site (factor : UInt64) (total num : Ctr) (metric : String) (sent : List Sent) : Site :=
    ⟨factor.toNat, (ctrs total).mtc, (ctrs num).mtc, (ctrs num).mtc,
      totalDivisor factor (ctrs num).mtc, values true metric sent⟩
  (if summary.fsOpenClose = true ∧ cfg.watchFs = true then
    [site 1000 .fsDurationTotal .fsDurationNum "fs.duration"
      (doTotalDuration cfg summary ctrs .totFsDuration).2] else []) ++
  (if summary.netOpenClose = true ∧ cfg.watchNet = true then
    [site 1000000 .connDurationTotal .connDurationNum "net.duration"
      (doTotalDuration cfg summary ctrs .totNetDuration).2] else [])

end Sites

section Looked

variable (cfg : Config) (flags : DnsFlags) (s : State) (fd size : ℤ) (entryName : String)
  (pathname : Option String)

/-- **The time of a lookup is not in the sum of the process**: zero is added to it. -/
theorem updateDNSDuration_total (h : (s.ctrs .dnsDurationTotal).mtc = 0) :
    ((updateDNSDuration cfg flags s fd size entryName pathname).1.ctrs .dnsDurationTotal).mtc =
      0 := by
  have hadd : atomicAddU64 0 0 = 0 := rfl
  unfold updateDNSDuration
  dsimp only
  generalize postDNSState _ _ _ _ _ _ _ _ = posted
  cases posted.1 <;> simp [State.globals, addToInterfaceCounts, h, hadd]

/-- **A total of lookups is never reported.** -/
theorem doTotalDNSDuration_nil {ctrs : MetricCounters} (h : (ctrs .dnsDurationTotal).mtc = 0) :
    (doTotalDNSDuration cfg flags ctrs).2 = [] := by
  unfold doTotalDNSDuration reportTotalDuration
  simp [h]

end Looked

def timedFile (num total : UInt64) : FsInfo where
  ctr
    | .numDuration => ⟨num, num⟩
    | .totalDuration => ⟨total, total⟩
    | _ => {}

def busy (k : ℕ) : List Op := List.replicate k (.update .fsDuration 3 5000 none none 0)

theorem busy_isUpdate (k : ℕ) : ∀ op ∈ busy k, op.isUpdate = true := by
  intro op hop
  rw [eq_of_mem_replicate hop]
  rfl

theorem fileTimes_busy (cfg : Config) (s : State) (k : ℕ) :
    gather (step cfg) (fileTimes 3) s (busy k) = replicate k 5000 := by
  induction k generalizing s with
  | zero => rfl
  | succ k ih =>
    have hfirst : fileTimes 3 s (.update .fsDuration 3 5000 none none 0) = [5000] := rfl
    unfold busy at ih ⊢
    rw [replicate_succ, replicate_succ, gather, ih, hfirst]
    rfl

theorem busy_entry (cfg : Config) (verbosity : ℕ) {k : ℕ} (hk : k * 5000 ≤ cap) :
    (((process cfg (init verbosity) (busy k)).1.fsinfo 3).ctr .numDuration).evt.toNat = k ∧
      (((process cfg (init verbosity) (busy k)).1.fsinfo 3).ctr .totalDuration).evt.toNat =
        k * 5000 := by
  obtain ⟨hnum, htotal⟩ := @entry_counted cfg (busy k) (busy_isUpdate k) verbosity 3
  rw [fileTimes_busy, length_replicate] at hnum
  rw [fileTimes_busy, sum_replicate, smul_eq_mul] at htotal
  rw [hnum, htotal]
  exact ⟨Nat.min_eq_left (by omega), Nat.min_eq_left hk⟩

def timedSocket (num total : UInt64) : NetInfo where
  ctr
    | .numDuration => ⟨num, num⟩
    | .totalDuration => ⟨total, total⟩
    | _ => {}

end AppView.Metrics

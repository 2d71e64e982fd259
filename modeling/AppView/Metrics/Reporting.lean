import AppView.Metrics.Effects

/-!
# What reporting does to the accounts

`doFSMetric` and `doNetMetric` report an entry or a message of one type.
-/

namespace AppView.Metrics

open AppView.Framework

namespace Kind

def fsReported (cfg : Config) (summary : Summary) (k : Kind) (type : MetricT)
    (fs : FsInfo) (source : ControlType) : Bool :=
  type = k.type && k.fsCtr.isSome &&
    !notReported (k.summarized summary) (k.watched cfg) source && k.fsEntry fs ≠ 0

def netReported (cfg : Config) (summary : Summary) (k : Kind) (type : MetricT)
    (net : NetInfo) (source : ControlType) : Bool :=
  type = k.type && (netTotal net k).isSome &&
    !notReported (k.summarized summary) (k.watched cfg) source &&
    match k with
    | rx => (net.ctr .rxBytes).evt ≠ 0 && (net.ctr .rxBytes).mtc ≠ 0
    | tx => (net.ctr .txBytes).evt ≠ 0 && (net.ctr .txBytes).mtc ≠ 0
    | _ => true

variable {k : Kind}

variable {g : Ctr} {c : FsCtr} {cfg : Config} {summary : Summary} {metric : String}
    {source : ControlType} {events : List Sent} {net : NetInfo}

theorem total_subFrom_other (hg : k.counts g = false) (ctrs : MetricCounters) (x : UInt64) :
    k.total (subFrom ctrs g x) = k.total ctrs := by
  funext c
  by_cases h : c = g
  · subst h
    simp [total, hg]
  · simp [total, h]

theorem values_cmdSendMetric (cfg : Config) (e : Sent) (hname : e.name = k.metric)
    (htype : e.type = .delta) {fd : Option ℤ} {v : ℕ} (hfd : e.fd = fd) (hv : e.value = signed v) :
    k.values (cmdSendMetric cfg e) = reported cfg [(fd, v)] := by
  unfold cmdSendMetric reported
  split <;> simp [values, hname, htype, hfd, hv]

theorem values_cmdSendMetric_other (cfg : Config) (e : Sent)
    (h : e.name ≠ k.metric ∨ e.type ≠ .delta) : k.values (cmdSendMetric cfg e) = [] := by
  unfold cmdSendMetric
  split
  · rcases h with h | h <;> simp [values, h]
  · rfl

structure SendsAmount (cfg : Config) (k : Kind) (ctrs ctrs' : MetricCounters) (g : Ctr)
    (fd : ℤ) (v v' : ℕ) (sent : List Sent) : Prop where
  counted : k.counts g = true
  total : k.total ctrs' = Function.update (k.total ctrs) g (k.total ctrs g - v)
  cleared : v' = 0
  values : k.values sent = reported cfg [(some fd, v)]

structure SendsNothing (k : Kind) (ctrs ctrs' : MetricCounters) (v v' : ℕ)
    (sent : List Sent) : Prop where
  total : k.total ctrs' = k.total ctrs
  kept : v' = v
  values : k.values sent = []

abbrev NetSilent (k : Kind) (ctrs : MetricCounters) (net : NetInfo) (r : Reported NetInfo) : Prop :=
  SendsNothing k ctrs r.ctrs (netEntry net k) (netEntry r.info k) r.sent

abbrev FsSilent (k : Kind) (ctrs : MetricCounters) (fs : FsInfo) (r : Reported FsInfo) : Prop :=
  SendsNothing k ctrs r.ctrs (k.fsEntry fs) (k.fsEntry r.info) r.sent

theorem fsEntry_eq (hk : k.fsCtr = some c) (fs : FsInfo) : k.fsEntry fs = (fs.ctr c).mtc.toNat := by
  simp [fsEntry, hk]

theorem toNat_eq_zero {x : UInt64} : x.toNat = 0 ↔ x = 0 :=
  ⟨fun h => UInt64.toNat_inj.mp h, fun h => by rw [h]; rfl⟩

variable {ctrs : MetricCounters} {num : FsCtr} {fs : FsInfo} {op : String}

theorem doFSReadWrite_sends (hk : k.fsCtr = some c) (hg : k.counts g = true)
    (hm : metric = k.metric) (hrep : notReported summary.fsReadWrite cfg.watchFs source = false)
    (hne : (fs.ctr c).mtc ≠ 0) :
    let r := doFSReadWrite cfg summary ctrs metric num c g fs source op
    SendsAmount cfg k ctrs r.ctrs g fs.fd (k.fsEntry fs) (k.fsEntry r.info) r.sent := by
  subst hm
  unfold doFSReadWrite
  dsimp only
  rw [hrep, if_neg Bool.false_ne_true, if_neg hne]
  refine ⟨hg, ?_, ?_, ?_⟩
  · rw [fsEntry_eq hk]
    exact total_subFrom hg ctrs _
  · simp [fsEntry_eq hk]
  · rw [values_append, values_cmdSendMetric cfg _ rfl rfl rfl
      (by rw [longLong_eq, ← fsEntry_eq hk])]
    split <;> simp

theorem doFSReadWrite_silent
    (h : notReported summary.fsReadWrite cfg.watchFs source = true ∨ (fs.ctr c).mtc = 0) :
    FsSilent k ctrs fs (doFSReadWrite cfg summary ctrs metric num c g fs source op) := by
  unfold doFSReadWrite
  dsimp only
  split
  · exact ⟨rfl, rfl, by split <;> simp⟩
  · rename_i hrep
    rw [if_pos (h.resolve_left hrep)]
    exact ⟨rfl, rfl, by split <;> simp⟩

theorem doFSReadWrite_other (hm : metric ≠ k.metric) (hnum : k.fsCtr ≠ some num)
    (hc : k.fsCtr ≠ some c) (hg : k.counts g = false) :
    FsSilent k ctrs fs (doFSReadWrite cfg summary ctrs metric num c g fs source op) := by
  unfold doFSReadWrite
  dsimp only
  split
  · exact ⟨rfl, rfl, by split <;> simp⟩
  split
  · exact ⟨rfl, rfl, by split <;> simp⟩
  refine ⟨total_subFrom_other hg ctrs _, ?_, ?_⟩
  · cases hk : k.fsCtr with
    | none => simp [fsEntry, hk]
    | some d =>
      have hd : d ≠ c := fun h => hc (h ▸ hk)
      have hd' : d ≠ num := fun h => hnum (h ▸ hk)
      simp [fsEntry, hk, hd, hd']
  · rw [values_append, values_cmdSendMetric_other cfg _ (.inl hm)]
    split <;> simp

theorem doFSDuration_silent (cfg : Config) (summary : Summary) (ctrs : MetricCounters)
    (fs : FsInfo) (source : ControlType) (op : String) :
    FsSilent k ctrs fs (doFSDuration cfg summary ctrs fs source op) := by
  have events : ∀ (p : Prop) [Decidable p] (e : Sent),
      k.values (if p then cmdSendEvent e else []) = [] := by
    intro p _ e
    split <;> simp
  unfold doFSDuration
  dsimp only
  split
  · exact ⟨rfl, rfl, events _ _⟩
  split
  · exact ⟨rfl, rfl, events _ _⟩
  refine ⟨rfl, ?_, ?_⟩
  · cases k <;> simp [fsEntry, fsCtr]
  · rw [values_append, events, values_cmdSendMetric_other cfg _ (.inr (by simp))]
    rfl

theorem doFSCount_silent {summarize : Bool} {event : List Sent} (hm : metric ≠ k.metric)
    (hnum : k.fsCtr ≠ some num) (hg : k.counts g = false) (he : k.values event = []) :
    FsSilent k ctrs fs (doFSCount cfg summarize ctrs metric num g event fs source op) := by
  have hevents : k.values (if (fs.ctr num).evt ≠ 0 then event else []) = [] := by
    split
    · exact he
    · rfl
  have hmarked : k.fsEntry
      (if (fs.ctr num).evt ≠ 0 then { fs with ctr := swapEvt fs.ctr num } else fs) =
        k.fsEntry fs := by
    split
    · unfold fsEntry
      cases k.fsCtr <;> simp
    · rfl
  unfold doFSCount
  dsimp only at hmarked ⊢
  generalize (if (fs.ctr num).evt ≠ 0 then event else []) = events at *
  generalize (if (fs.ctr num).evt ≠ 0 then _ else fs) = fs' at *
  split
  · exact ⟨rfl, hmarked, hevents⟩
  split
  · exact ⟨rfl, hmarked, hevents⟩
  refine ⟨total_subFrom_other hg ctrs _, ?_, ?_⟩
  · rw [← hmarked]
    cases hk : k.fsCtr with
    | none => simp [fsEntry, hk]
    | some d =>
      have hd : d ≠ num := fun h => hnum (h ▸ hk)
      simp [fsEntry, hk, hd]
  · rw [values_append, hevents, values_cmdSendMetric_other cfg _ (.inl hm)]
    rfl

theorem values_doFSOpenCloseEvent (metric : String) (num : FsCtr) (fs : FsInfo)
    (op : String) : k.values (doFSOpenCloseEvent metric num fs op) = [] := by
  unfold doFSOpenCloseEvent
  split <;> simp

/-- **What `doFSMetric` does to the accounts of a kind.** -/
theorem doFSMetric_spec (cfg : Config) (summary : Summary) (ctrs : MetricCounters)
    (type : MetricT) (fs : FsInfo) (source : ControlType) (op pathname : String) :
    let r := doFSMetric cfg summary ctrs type fs source op pathname
    (k.fsReported cfg summary type fs source = true → ∃ g, k.fsTotal = some g ∧
      SendsAmount cfg k ctrs r.ctrs g fs.fd (k.fsEntry fs) (k.fsEntry r.info) r.sent) ∧
    (k.fsReported cfg summary type fs source = false → FsSilent k ctrs fs r) := by
  by_cases ht : type = k.type
  · subst ht
    cases k with
    | read | write =>
      refine ⟨fun h => ?_, fun h => ?_⟩
      · simp [fsReported, fsCtr, summarized, watched, fsEntry, Kind.type] at h
        refine ⟨_, rfl, doFSReadWrite_sends rfl rfl rfl h.1 ?_⟩
        rw [Ne, ← toNat_eq_zero]
        exact of_decide_eq_true h.2
      · apply doFSReadWrite_silent
        simp [fsReported, fsCtr, summarized, watched, fsEntry, Kind.type] at h
        by_cases hrep : notReported summary.fsReadWrite cfg.watchFs source = true
        · exact .inl hrep
        · have hz := of_decide_eq_false (h (by simpa using hrep))
          exact .inr (toNat_eq_zero.mp (not_not.mp hz))
    | rx | tx | opened | closed =>
      refine ⟨fun h => ?_, fun _ => ⟨rfl, rfl, rfl⟩⟩
      simp [fsReported, fsCtr] at h
  · refine ⟨fun h => absurd h (by simp [fsReported, ht]), fun _ => ?_⟩
    cases type with
    | fsDuration => exact doFSDuration_silent cfg summary ctrs fs source op
    | fsRead | fsWrite =>
      apply doFSReadWrite_other <;> cases k <;>
        first | exact absurd rfl ht | decide
    | fsOpen | fsClose =>
      apply doFSCount_silent
      · cases k <;> decide
      · cases k <;> decide
      · cases k <;> rfl
      · exact values_doFSOpenCloseEvent _ _ fs op
    | fsSeek =>
      apply doFSCount_silent
      · cases k <;> decide
      · cases k <;> decide
      · cases k <;> rfl
      · simp
    | fsDelete => exact ⟨rfl, rfl, by simp [doFSMetric]⟩
    | _ => exact ⟨rfl, rfl, rfl⟩

/-! ## Sockets -/

theorem metric_ne {k' : Kind} (h : k ≠ k') : k'.metric ≠ k.metric := by
  cases k <;> cases k' <;> first | exact absurd rfl h | decide

theorem values_doNetOpenCloseEvent (metric : String) (ctrs : MetricCounters)
    (net : NetInfo) : k.values (doNetOpenCloseEvent metric ctrs net) = [] := by
  unfold doNetOpenCloseEvent
  split <;> simp

theorem doNetGauge_silent (cfg : Config) (summary : Summary) (ctrs : MetricCounters)
    (metric units : String) (value : CountersElement) (net : NetInfo) (source : ControlType) :
    NetSilent k ctrs net (doNetGauge cfg summary ctrs metric units value net source) := by
  unfold doNetGauge
  split
  · exact ⟨rfl, rfl, by simp⟩
  · refine ⟨rfl, rfl, ?_⟩
    rw [values_append, values_cmdSendMetric_other cfg _ (.inr (by simp))]
    simp

theorem doNetOpenClose_sends (hk : ∀ net, netEntry net k = (net.counters g).mtc.toNat)
    (hg : k.counts g = true) (hm : metric = k.metric) (he : k.values events = [])
    (hrep : notReported summary.netOpenClose cfg.watchNet source = false) :
    let r := doNetOpenClose cfg summary ctrs metric g events net source
    SendsAmount cfg k ctrs r.ctrs g net.fd (netEntry net k) (netEntry r.info k) r.sent := by
  subst hm
  unfold doNetOpenClose
  rw [hrep, if_neg Bool.false_ne_true]
  refine ⟨hg, ?_, ?_, ?_⟩
  · rw [hk]
    exact total_subFrom hg ctrs _
  · simp [hk]
  · rw [values_append, he, values_cmdSendMetric cfg _ rfl rfl rfl
      (by rw [longLong_eq, ← hk]), List.nil_append]

theorem doNetOpenClose_silent (he : k.values events = [])
    (hrep : notReported summary.netOpenClose cfg.watchNet source = true) :
    NetSilent k ctrs net (doNetOpenClose cfg summary ctrs metric g events net source) := by
  unfold doNetOpenClose
  rw [if_pos hrep]
  exact ⟨rfl, rfl, he⟩

theorem doNetOpenClose_other (hm : metric ≠ k.metric) (hg : k.counts g = false)
    (he : k.values events = []) :
    NetSilent k ctrs net (doNetOpenClose cfg summary ctrs metric g events net source) := by
  unfold doNetOpenClose
  split
  · exact ⟨rfl, rfl, he⟩
  · refine ⟨total_subFrom_other hg ctrs _, ?_, ?_⟩
    · cases k with
      | opened =>
        have : Ctr.netConnOpen ≠ g := by rintro rfl; exact absurd hg (by decide)
        simp [netEntry, this]
      | closed =>
        have : Ctr.netConnClose ≠ g := by rintro rfl; exact absurd hg (by decide)
        simp [netEntry, this]
      | read | write | rx | tx => rfl
    · rw [values_append, he, values_cmdSendMetric_other cfg _ (.inl hm)]
      rfl

theorem doNetDuration_silent (cfg : Config) (summary : Summary) (ctrs : MetricCounters)
    (net : NetInfo) (source : ControlType) :
    NetSilent k ctrs net (doNetDuration cfg summary ctrs net source) := by
  unfold doNetDuration
  dsimp only
  split
  · exact ⟨rfl, rfl, rfl⟩
  generalize meanDuration 1000000 (net.ctr .totalDuration).evt (net.ctr .numDuration).evt = dur
  have hmarked : netEntry (if dur ≠ 0 then
        { net with ctr := swapEvt (swapEvt net.ctr .numDuration) .totalDuration }
      else net) k = netEntry net k := by
    split
    · cases k <;> simp [netEntry]
    · rfl
  generalize (if dur ≠ 0 then _ else net) = net' at *
  have hevents : ∀ e : Sent, k.values ((if dur ≠ 0 then cmdSendEvent e else []) ++
      doNetOpenCloseEvent "net.close" ctrs net') = [] := by
    intro e
    rw [values_append, values_doNetOpenCloseEvent]
    split <;> simp
  split
  · exact ⟨rfl, hmarked, hevents _⟩
  split
  · exact ⟨rfl, hmarked, hevents _⟩
  refine ⟨rfl, ?_, ?_⟩
  · rw [← hmarked]
    cases k <;> simp [netEntry]
  · rw [values_append, hevents, values_cmdSendMetric_other cfg _ (.inr (by simp))]
    rfl

variable {global : SockSummaryBucket → Ctr}

theorem sendNetBytes_sends {metric : Sent} {num c : NetCtr} {fd : ℤ}
    (hk : ∀ net, netEntry net k = (net.ctr c).mtc.toNat) (hg : ∀ b, k.counts (global b) = true)
    (hname : metric.name = k.metric) (htype : metric.type = .delta) (hfd : metric.fd = some fd)
    (hv : metric.value = longLong (net.ctr c).mtc) (he : k.values events = []) :
    let r := sendNetBytes cfg ctrs metric num c global net events
    SendsAmount cfg k ctrs r.ctrs (global (getNetRxTxBucket net)) fd (netEntry net k)
      (netEntry r.info k) r.sent := by
  refine ⟨hg _, ?_, ?_, ?_⟩
  · rw [hk]
    exact total_subFrom (hg _) ctrs _
  · simp [hk, sendNetBytes]
  · rw [longLong_eq, ← hk] at hv
    simp only [sendNetBytes]
    rw [values_append, he, values_cmdSendMetric cfg metric hname htype hfd hv, List.nil_append]

theorem sendNetBytes_other {metric : Sent} {num c : NetCtr}
    (hrx : k = rx → .rxBytes ≠ num ∧ .rxBytes ≠ c)
    (htx : k = tx → .txBytes ≠ num ∧ .txBytes ≠ c) (hg : ∀ b, k.counts (global b) = false)
    (hname : metric.name ≠ k.metric) (he : k.values events = []) :
    NetSilent k ctrs net (sendNetBytes cfg ctrs metric num c global net events) := by
  refine ⟨total_subFrom_other (hg _) ctrs _, ?_, ?_⟩
  · cases k with
    | rx => simp [sendNetBytes, netEntry, (hrx rfl).1, (hrx rfl).2]
    | tx => simp [sendNetBytes, netEntry, (htx rfl).1, (htx rfl).2]
    | read | write | opened | closed => rfl
  · simp only [sendNetBytes]
    rw [values_append, he, values_cmdSendMetric_other cfg metric (.inl hname)]
    rfl

theorem doNetRX_sends (h : rx.netReported cfg summary .netrx net source = true)
    (ctrs : MetricCounters) :
    let r := doNetRX cfg summary ctrs net source
    SendsAmount cfg rx ctrs r.ctrs (.netrxBytes (getNetRxTxBucket net)) net.fd
      (netEntry net rx) (netEntry r.info rx) r.sent := by
  simp [netReported, netTotal, summarized, watched, Kind.type] at h
  obtain ⟨hrep, hevt, hmtc⟩ := h
  unfold doNetRX
  rw [if_neg hevt, hrep, if_neg Bool.false_ne_true, if_neg hmtc]
  -- the event copies have been reset in between, which `rx` does not see
  have hmarked : netEntry
      { net with ctr := swapEvt (swapEvt net.ctr .numRX) .rxBytes } rx =
        netEntry net rx := by
    simp [netEntry]
  rw [← hmarked]
  exact sendNetBytes_sends (fun _ => rfl) (fun _ => rfl) rfl rfl rfl
    (by simp [netBytesEvent]) (by simp)

theorem doNetRX_silent (h : k ≠ rx ∨ rx.netReported cfg summary .netrx net source = false)
    (ctrs : MetricCounters) :
    NetSilent k ctrs net (doNetRX cfg summary ctrs net source) := by
  have hmarked : netEntry
      { net with ctr := swapEvt (swapEvt net.ctr .numRX) .rxBytes } k =
        netEntry net k := by
    cases k <;> simp [netEntry]
  unfold doNetRX
  dsimp only
  split
  · exact ⟨rfl, rfl, rfl⟩
  split
  · exact ⟨rfl, hmarked, by simp⟩
  split
  · exact ⟨rfl, hmarked, by simp⟩
  rename_i hevt hrep hmtc
  rcases h with h | h
  · rw [NetSilent, ← hmarked]
    apply sendNetBytes_other
    · exact fun hk => absurd hk h
    · exact fun _ => by decide
    · cases k <;> first | exact absurd rfl h | exact fun _ => rfl
    · exact metric_ne h
    · simp
  · simp [netReported, netTotal, summarized, watched, Kind.type, hrep, hevt, hmtc] at h

theorem doNetTX_sends (h : tx.netReported cfg summary .nettx net source = true)
    (ctrs : MetricCounters) :
    let r := doNetTX cfg summary ctrs net source
    SendsAmount cfg tx ctrs r.ctrs (.nettxBytes (getNetRxTxBucket net)) net.fd
      (netEntry net tx) (netEntry r.info tx) r.sent := by
  simp [netReported, netTotal, summarized, watched, Kind.type] at h
  obtain ⟨hrep, hevt, hmtc⟩ := h
  unfold doNetTX
  rw [if_neg hevt, if_neg hmtc, hrep, if_neg Bool.false_ne_true]
  exact sendNetBytes_sends (fun _ => rfl) (fun _ => rfl) rfl rfl rfl rfl (by simp)

theorem doNetTX_silent (h : k ≠ tx ∨ tx.netReported cfg summary .nettx net source = false)
    (ctrs : MetricCounters) :
    NetSilent k ctrs net (doNetTX cfg summary ctrs net source) := by
  unfold doNetTX
  dsimp only
  split
  · exact ⟨rfl, rfl, rfl⟩
  split
  · exact ⟨rfl, rfl, by simp⟩
  split
  · exact ⟨rfl, rfl, by simp⟩
  rename_i hevt hmtc hrep
  rcases h with h | h
  · apply sendNetBytes_other
    · exact fun _ => by decide
    · exact fun hk => absurd hk h
    · cases k <;> first | exact absurd rfl h | exact fun _ => rfl
    · exact metric_ne h
    · simp
  · simp [netReported, netTotal, summarized, watched, Kind.type, hrep, hevt, hmtc] at h

/-- **What `doNetMetric` does to the accounts of a kind.** -/
theorem doNetMetric_spec (cfg : Config) (summary : Summary) (ctrs : MetricCounters)
    (type : MetricT) (net : NetInfo) (source : ControlType) :
    let r := doNetMetric cfg summary ctrs type net source
    (k.netReported cfg summary type net source = true → ∃ g, netTotal net k = some g ∧
      SendsAmount cfg k ctrs r.ctrs g net.fd (netEntry net k) (netEntry r.info k) r.sent) ∧
    (k.netReported cfg summary type net source = false → NetSilent k ctrs net r) := by
  by_cases ht : type = k.type
  · subst ht
    cases k with
    | read | write =>
      refine ⟨fun h => ?_, fun _ => ⟨rfl, rfl, rfl⟩⟩
      simp [netReported, netTotal] at h
    | rx => exact ⟨fun h => ⟨_, rfl, doNetRX_sends h ctrs⟩, fun h => doNetRX_silent (.inr h) ctrs⟩
    | tx => exact ⟨fun h => ⟨_, rfl, doNetTX_sends h ctrs⟩, fun h => doNetTX_silent (.inr h) ctrs⟩
    | opened =>
      have he := values_doNetOpenCloseEvent (k := opened) "net.open" ctrs net
      refine ⟨fun h => ⟨_, rfl, ?_⟩, fun h => ?_⟩
      · simp [netReported, netTotal, summarized, watched] at h
        exact doNetOpenClose_sends (fun _ => rfl) rfl rfl he h
      · simp [netReported, netTotal, summarized, watched] at h
        exact doNetOpenClose_silent he h
    | closed =>
      refine ⟨fun h => ⟨_, rfl, ?_⟩, fun h => ?_⟩
      · simp [netReported, netTotal, summarized, watched] at h
        exact doNetOpenClose_sends (fun _ => rfl) rfl rfl rfl h
      · simp [netReported, netTotal, summarized, watched] at h
        exact doNetOpenClose_silent rfl h
  · refine ⟨fun h => absurd h (by simp [netReported, ht]), fun _ => ?_⟩
    cases type with
    | openPorts | netConnections => exact doNetGauge_silent cfg summary ctrs _ _ _ net source
    | connectionOpen =>
      apply doNetOpenClose_other
      · cases k <;> first | exact absurd rfl ht | decide
      · cases k <;> first | exact absurd rfl ht | rfl
      · exact values_doNetOpenCloseEvent "net.open" ctrs net
    | connectionClose =>
      apply doNetOpenClose_other
      · cases k <;> first | exact absurd rfl ht | decide
      · cases k <;> first | exact absurd rfl ht | rfl
      · rfl
    | connectionDuration => exact doNetDuration_silent cfg summary ctrs net source
    | netrx => exact doNetRX_silent (.inl fun h => ht (by rw [h]; rfl)) ctrs
    | nettx => exact doNetTX_silent (.inl fun h => ht (by rw [h]; rfl)) ctrs
    | _ => exact ⟨rfl, rfl, rfl⟩

end Kind

end AppView.Metrics

import AppView.Metrics.State

/-!
# What an update can change

An update of one type changes the counters of that type, the start time of a socket and the
queue. **`UpdateRule.doUpdateState`**: a relation between states that such changes keep is kept
by the update.
-/

namespace AppView.Metrics

def fsTouched : MetricT → FsCtr → Bool
  | .fsDuration, .numDuration | .fsDuration, .totalDuration | .fsRead, .numRead
  | .fsRead, .readBytes | .fsWrite, .numWrite | .fsWrite, .writeBytes | .fsOpen, .numOpen
  | .fsClose, .numClose | .fsSeek, .numSeek => true
  | _, _ => false

def netTouched : MetricT → NetCtr → Bool
  | .netrx, .numRX | .netrx, .rxBytes | .nettx, .numTX | .nettx, .txBytes
  | .connectionDuration, .numDuration | .connectionDuration, .totalDuration => true
  | _, _ => false

def touched : MetricT → Ctr → Bool
  | .openPorts, .openPorts | .netConnections, .netConnectionsTcp
  | .netConnections, .netConnectionsUdp | .netConnections, .netConnectionsOther
  | .connectionOpen, .netConnOpen | .connectionClose, .netConnClose
  | .connectionDuration, .connDurationNum | .connectionDuration, .connDurationTotal
  | .netrx, .netrxBytes _ | .nettx, .nettxBytes _ | .fsDuration, .fsDurationNum
  | .fsDuration, .fsDurationTotal | .fsRead, .readBytes | .fsWrite, .writeBytes
  | .fsOpen, .numOpen | .fsClose, .numClose | .fsSeek, .numSeek => true
  | _, _ => false

structure UpdateRule (cfg : Config) (type : MetricT) (R : State → State → Prop) : Prop where
  refl : ∀ s, R s s
  trans : ∀ {s s' s''}, R s s' → R s' s'' → R s s''
  fsCtr : ∀ s fd f, (∀ c m, fsTouched type m = false → f c m = c m) → R s (s.fsCtr fd f)
  netCtr : ∀ s fd f, (∀ c m, netTouched type m = false → f c m = c m) → R s (s.netCtr fd f)
  netCounters : ∀ s fd f, (∀ c m, touched type m = false → f c m = c m) →
    R s (s.netCounters fd f)
  globals : ∀ s f, (∀ c m, touched type m = false → f c m = c m) → R s (s.globals f)
  start : ∀ s fd t, R s (s.setNet fd { s.netinfo fd with startTime := t })
  postFs : ∀ s fd fs funcop pathname, R s (postFSState cfg s fd type fs funcop pathname).2
  postNet : ∀ s fd net, R s (postNetState cfg s fd type net).2

namespace UpdateRule

variable {cfg : Config} {type : MetricT} {R : State → State → Prop} {s s' s'' : State} {fd : ℤ}
  {p : Prop} [Decidable p]

theorem ite (h : R s s') (h' : R s s'') : R s (if p then s' else s'') := by
  split
  · exact h
  · exact h'

theorem also (h : UpdateRule cfg type R) (hs : R s s') (h' : R s' s'') :
    R s (if p then s'' else s') :=
  ite (h.trans hs h') hs

theorem ne_of_touched {ι : Type} {t : ι → Bool} {m n : ι} (hm : t m = false) (hn : t n = true) :
    m ≠ n := by
  rintro rfl
  rw [hm] at hn
  cases hn

section

variable (h : UpdateRule cfg type R)

include h

theorem updateFs {adds : List (FsCtr × UInt64)}
    {globals : List (Ctr × UInt64)} (ha : ∀ a ∈ adds, fsTouched type a.1 = true)
    (hg : ∀ a ∈ globals, touched type a.1 = true) (funcop pathname : Option String) :
    R s (updateFs cfg s fd type adds globals funcop pathname) := by
  have hadd := h.fsCtr s fd (fun c => adds.foldl (fun c a => addTo c a.1 a.2) c)
    fun c m hm => foldl_addTo_ne c adds fun a hmem => ne_of_touched hm (ha a hmem)
  have hcount := h.trans hadd (h.globals _ (fun c => globals.foldl (fun c a => addTo c a.1 a.2) c)
    fun c m hm => foldl_addTo_ne c globals fun a hmem => ne_of_touched hm (hg a hmem))
  exact h.also (h.trans hcount (h.postFs _ fd _ funcop pathname)) (h.fsCtr _ fd _
    fun c m hm => foldl_swapMtc_ne c adds fun a hmem => ne_of_touched hm (ha a hmem))

theorem updateNetBytes {num c : NetCtr}
    {global : SockSummaryBucket → Ctr} (hn : netTouched type num = true)
    (hc : netTouched type c = true) (hg : ∀ b, touched type (global b) = true) (size : ℤ) :
    R s (updateNetBytes cfg s fd type num c global size) := by
  have hadd := h.netCtr s fd (fun e => addTo (addTo e num 1) c (u64 size)) fun e m hm => by
    rw [addTo_ne _ _ (ne_of_touched hm hc), addTo_ne _ _ (ne_of_touched hm hn)]
  have hcount := h.trans hadd (h.globals _ (fun e => addTo e
    (global (getNetRxTxBucket ((s.netCtr fd fun e => addTo (addTo e num 1) c
      (u64 size)).netinfo fd))) (u64 size))
    fun e m hm => addTo_ne _ _ (ne_of_touched hm (hg _)))
  refine h.also (h.trans hcount (h.postNet _ fd _)) (h.netCtr _ fd _ fun e m hm => ?_)
  rw [swapMtc_ne _ (ne_of_touched hm hc), swapMtc_ne _ (ne_of_touched hm hn)]

theorem updateConnection {ctr : Ctr} (hc : touched type ctr = true) :
    R s (updateConnection cfg s fd type ctr) := by
  have hadd := h.netCounters s fd (fun c => addTo c ctr 1)
    fun c m hm => addTo_ne _ _ (ne_of_touched hm hc)
  have hcount := h.trans hadd (h.globals _ (fun c => addTo c ctr 1)
    fun c m hm => addTo_ne _ _ (ne_of_touched hm hc))
  unfold Metrics.updateConnection
  refine h.trans (ite ?_ (h.refl s)) (h.netCounters _ fd _ fun c m hm => ?_)
  · exact h.also (h.trans hcount (h.postNet _ fd _)) (h.netCounters _ fd _
      fun c m hm => swapMtc_ne _ (ne_of_touched hm hc))
  · exact swapEvt_ne _ (ne_of_touched hm hc)

theorem updateGauge {ctr : Ctr} (hc : touched type ctr = true)
    (size : ℤ) (now : UInt64) : R s (updateGauge cfg s fd type ctr size now) := by
  refine h.trans (h.trans ?_ (ite (h.start _ fd now) (h.refl _))) (h.postNet _ fd _)
  refine ite (h.globals s _ fun c m hm => ?_) (ite (h.globals s _ fun c m hm => ?_) (h.refl s))
  · exact subFrom_ne _ _ (ne_of_touched hm hc)
  · exact addTo_ne _ _ (ne_of_touched hm hc)

end

theorem updateConnectionDuration (h : UpdateRule cfg .connectionDuration R) (now : UInt64) :
    R s (updateConnectionDuration cfg s fd now) := by
  have hnet : ∀ {m : NetCtr}, netTouched .connectionDuration m = false →
      m ≠ .numDuration ∧ m ≠ .totalDuration := fun hm =>
    ⟨ne_of_touched hm rfl, ne_of_touched hm rfl⟩
  have hadd : ∀ (t : State) (x : UInt64), R t ((t.netCtr fd fun c =>
      addTo (addTo c .numDuration 1) .totalDuration x).globals fun c =>
      addTo (addTo c .connDurationNum 1) .connDurationTotal x) := by
    intro t x
    refine h.trans (h.netCtr t fd _ fun c m hm => ?_) (h.globals _ _ fun c m hm => ?_)
    · rw [addTo_ne _ _ (hnet hm).2, addTo_ne _ _ (hnet hm).1]
    · rw [addTo_ne _ _ (ne_of_touched hm rfl), addTo_ne _ _ (ne_of_touched hm rfl)]
  have hposted : ∀ t : State, R s t → R s (if carriedData (t.netinfo fd) then
      if (postNetState cfg t fd .connectionDuration (t.netinfo fd)).1 then
        (postNetState cfg t fd .connectionDuration (t.netinfo fd)).2.netCtr fd fun c =>
          swapMtc (swapMtc c .numDuration) .totalDuration
      else (postNetState cfg t fd .connectionDuration (t.netinfo fd)).2
    else t) := by
    intro t ht
    refine ite (h.also (h.trans ht (h.postNet _ fd _)) (h.netCtr _ fd _ fun c m hm => ?_)) ht
    rw [swapMtc_ne _ (hnet hm).2, swapMtc_ne _ (hnet hm).1]
  unfold Metrics.updateConnectionDuration
  refine h.trans (hposted _ (h.also (h.start s fd 0) (hadd _ _))) (h.netCtr _ fd _ ?_)
  intro c m hm
  rw [swapEvt_ne _ (hnet hm).2, swapEvt_ne _ (hnet hm).1]

/-- **What its changes keep, an update keeps.** -/
theorem doUpdateState (h : UpdateRule cfg type R) (fd size : ℤ) (funcop pathname : Option String)
    (now : UInt64) : R s (doUpdateState cfg s type fd size funcop pathname now) := by
  have hconn : ∀ net, touched .netConnections (connectionsCtr net) = true := by
    intro net
    unfold connectionsCtr
    split_ifs <;> rfl
  cases type with
  | openPorts => exact ite (h.updateGauge rfl size now) (h.refl s)
  | netConnections => exact ite (h.updateGauge (hconn _) size now) (h.refl s)
  | connectionDuration => exact ite (h.updateConnectionDuration now) (h.refl s)
  | connectionOpen | connectionClose => exact ite (h.updateConnection rfl) (h.refl s)
  | netrx | nettx => exact ite (h.updateNetBytes rfl rfl (fun _ => rfl) size) (h.refl s)
  | fsDuration | fsRead | fsWrite =>
    exact ite (h.updateFs (by simp [fsTouched]) (by simp [touched]) funcop pathname) (h.refl s)
  | fsOpen | fsClose | fsSeek =>
    refine ite (h.trans (h.updateFs ?_ ?_ funcop pathname) (h.fsCtr _ fd _ fun c m hm => ?_))
      (h.refl s)
    · simp [fsTouched]
    · simp [touched]
    · exact swapEvt_ne _ (ne_of_touched hm rfl)
  | fsDelete => exact h.postFs s fd none funcop pathname
  | _ => exact h.refl s

end UpdateRule

end AppView.Metrics

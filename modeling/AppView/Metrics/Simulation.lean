import AppView.Metrics.Steps

/-!
# The pipeline simulates the ledger

`reportFD` is the last operation to be read as acts of the ledger. With it, every
step of the pipeline is a sequence of acts, and a run of the pipeline is a run of
the ledger over the acts of its steps: **`process_simulates`**. The laws of the
ledger then become laws of the pipeline.
-/

namespace AppView.Metrics

open AppView.Framework List Ledger
open Ledger.Books (ext)

/-! ## What every operation keeps -/

structure Keeps (s s' : State) : Prop where
  summary : s'.summary = s.summary
  queue : s.queue <+: s'.queue

namespace Keeps

variable {cfg : Config} {s s' s'' : State}

theorem of_eq (h : s'.summary = s.summary) (hq : s'.queue = s.queue) : Keeps s s' :=
  ⟨h, by rw [hq]⟩

theorem refl (s : State) : Keeps s s := of_eq rfl rfl

theorem trans (h : Keeps s s') (h' : Keeps s' s'') : Keeps s s'' :=
  ⟨h'.summary.trans h.summary, h.queue.trans h'.queue⟩

theorem ite {p : Prop} [Decidable p] (h : Keeps s s') (h' : Keeps s s'') :
    Keeps s (if p then s' else s'') := by
  split
  · exact h
  · exact h'

theorem postFSState (cfg : Config) (fd : ℤ) (type : MetricT) (fs : Option FsInfo)
    (funcop pathname : Option String) :
    Keeps s (postFSState cfg s fd type fs funcop pathname).2 := by
  unfold Metrics.postFSState
  dsimp only
  split
  · exact ⟨rfl, prefix_append _ _⟩
  · exact refl s

theorem postNetState (cfg : Config) (fd : ℤ) (type : MetricT) (net : NetInfo) :
    Keeps s (postNetState cfg s fd type net).2 := by
  unfold Metrics.postNetState
  dsimp only
  split
  · exact ⟨rfl, prefix_append _ _⟩
  · exact refl s

theorem setNet (h : Keeps s s') (fd : ℤ) (net : NetInfo) : Keeps s (s'.setNet fd net) :=
  h.trans (of_eq rfl rfl)

theorem setFs (h : Keeps s s') (fd : ℤ) (fs : FsInfo) : Keeps s (s'.setFs fd fs) :=
  h.trans (of_eq rfl rfl)

theorem rule (cfg : Config) (type : MetricT) : UpdateRule cfg type Keeps where
  refl := refl
  trans := trans
  fsCtr _ _ _ _ := of_eq rfl rfl
  netCtr _ _ _ _ := of_eq rfl rfl
  netCounters _ _ _ _ := of_eq rfl rfl
  globals _ _ _ := of_eq rfl rfl
  start _ _ _ := of_eq rfl rfl
  postFs _ fd fs funcop pathname := postFSState cfg fd type fs funcop pathname
  postNet _ fd net := postNetState cfg fd type net

theorem doUpdateState (type : MetricT) (fd size : ℤ) (funcop pathname : Option String)
    (now : UInt64) : Keeps s (doUpdateState cfg s type fd size funcop pathname now) :=
  (rule cfg type).doUpdateState fd size funcop pathname now

theorem openEntry (fd : ℤ) (path func : String) (now : UInt64) :
    Keeps s (openEntry cfg s fd path func now) :=
  ((refl s).setFs fd _).trans (doUpdateState .fsOpen fd 0 _ _ now)

theorem closeRule (cfg : Config) (fd : ℤ) (now : UInt64) : CloseRule cfg fd now Keeps where
  refl := refl
  trans := trans
  opened _ path func := openEntry fd path func now
  closed _ func := doUpdateState .fsClose fd 0 (some func) none now
  inactive _ := of_eq rfl rfl
  cleared _ := of_eq rfl rfl

theorem getFSEntry (cfg : Config) (fd : ℤ) (now : UInt64) : Keeps s (getFSEntry cfg s fd now).2 :=
  (closeRule cfg fd now).getFSEntry s

theorem closeSock (fd : ℤ) (func : String) (now : UInt64) : Keeps s (closeSock cfg s fd func now) :=
  ((((doUpdateState ..).trans (doUpdateState ..)).trans (doUpdateState ..)).trans
    (doUpdateState ..)).setNet fd _

theorem doClose (fd : ℤ) (func : String) (now : UInt64) : Keeps s (doClose cfg s fd func now) :=
  trans (ite (closeSock fd func now) (refl s)) ((closeRule cfg fd now).closeRest _ func _)

end Keeps

/-! ## Operations at a fixed verbosity -/

def Op.keepsVerbosity : Op → Bool
  | .setVerbosity _ => false
  | _ => true

def reportSocket (cfg : Config) (s : State) (fd : ℤ) : State × List (List Sent) :=
  if hasNetEntry s fd then
    run (reportNet cfg fd) (s.setNet fd { s.netinfo fd with fd := fd }) (netReports s.summary)
  else (s, [])

def reportFile (cfg : Config) (fd : ℤ) (found : Bool × State) : State × List (List Sent) :=
  if found.1 then
    run (reportFs cfg fd) (found.2.setFs fd { found.2.fsinfo fd with fd := fd })
      (fsReports found.2.summary)
  else (found.2, [])

theorem reportFD_eq (cfg : Config) (s : State) (fd : ℤ) (now : UInt64) : reportFD cfg s fd now =
      ((reportFile cfg fd (getFSEntry cfg (reportSocket cfg s fd).1 fd now)).1,
        (reportSocket cfg s fd).2.flatten ++
          (reportFile cfg fd (getFSEntry cfg (reportSocket cfg s fd).1 fd now)).2.flatten) :=
  rfl

theorem reportFD_keeps (cfg : Config) (s : State) (fd : ℤ) (now : UInt64) :
    Keeps s (reportFD cfg s fd now).1 := by
  have hnet : Keeps s (reportSocket cfg s fd).1 := by
    rw [reportSocket]
    split
    · exact run_invariant (I := Keeps s)
        (fun t x ht => ht.trans (.of_eq rfl rfl)) ((Keeps.refl s).setNet fd _) _
    · exact Keeps.refl s
  have hopen := hnet.trans (Keeps.getFSEntry cfg fd now)
  rw [reportFD_eq, reportFile]
  split
  · exact run_invariant (I := Keeps s)
      (fun t x ht => ht.trans (.of_eq rfl rfl)) (hopen.setFs fd _) _
  · exact hopen

variable {op : Op}

theorem step_keeps (cfg : Config) (s : State) (hv : op.keepsVerbosity = true)
    (hd : op ≠ .drain) : Keeps s (step cfg s op).1 := by
  cases op with
  | update type fd size funcop pathname now =>
    exact Keeps.doUpdateState type fd size funcop pathname now
  | doOpen fd path func now =>
    have h : Keeps s (if (s.fsinfo fd).active then doClose cfg s fd func now else s) :=
      .ite (Keeps.doClose fd func now) (Keeps.refl s)
    exact .ite (h.trans (Keeps.openEntry fd path func now)) (Keeps.refl s)
  | doClose fd func now => exact Keeps.doClose fd func now
  | addSock fd type family now =>
    have h : Keeps s (if (s.netinfo fd).active then
        doClose cfg s fd "close: DuplicateSocket" now else s) :=
      .ite (Keeps.doClose fd _ now) (Keeps.refl s)
    exact .ite (h.setNet fd _) (Keeps.refl s)
  | doSetConnection sd addr isLocal now =>
    have h := (Keeps.refl s).setNet sd (setAddr (s.netinfo sd) addr isLocal)
    exact .ite (.ite (h.trans (Keeps.doUpdateState .connectionOpen sd 1 none none now)) h)
      (Keeps.refl s)
  | doDupSock oldfd newfd now =>
    have h := (Keeps.refl s).setNet newfd (dupEntry (s.netinfo oldfd) now)
    exact .ite (h.trans (Keeps.doUpdateState .connectionOpen newfd 1 (some "dup") none now))
      (Keeps.refl s)
  | drain => exact absurd rfl hd
  | doTotal type | doTotalDuration type => exact .of_eq rfl rfl
  | reportFD fd now => exact reportFD_keeps cfg s fd now
  | setVerbosity v => simp [Op.keepsVerbosity] at hv

theorem drain_state (cfg : Config) (s : State) :
    (drain cfg s).1.summary = s.summary ∧ (drain cfg s).1.queue = s.queue.tail := by
  unfold drain
  cases hq : s.queue with
  | nil => exact ⟨rfl, hq⟩
  | cons msg queue =>
    rw [Kind.handleMsg_state]
    exact ⟨rfl, rfl⟩

theorem step_summary (cfg : Config) (s : State) (hv : op.keepsVerbosity = true) :
    (step cfg s op).1.summary = s.summary := by
  by_cases hd : op = .drain
  · subst hd
    exact (drain_state cfg s).1
  · exact (step_keeps cfg s hv hd).summary

theorem process_summary {cfg : Config} {s : State} {ops : List Op}
    (h : ∀ op ∈ ops, op.keepsVerbosity = true) : (process cfg s ops).1.summary = s.summary := by
  induction ops generalizing s with
  | nil => rfl
  | cons op ops ih =>
    obtain ⟨hop, hrest⟩ := forall_mem_cons.mp h
    exact (ih hrest).trans (step_summary cfg s hop)

namespace Kind

variable {cfg : Config} {k : Kind} {s : State}

/-! ## Reporting an entry -/

def entryTotal (s : State) (fd : ℤ) (k : Kind) : Option Ctr :=
  k.fsTotal <|> netTotal (s.netinfo fd) k

theorem doNetMetric_info (cfg : Config) (summary : Summary) (ctrs : MetricCounters)
    (type : MetricT) (net : NetInfo) (source : ControlType) :
    ∃ ctr counters, (doNetMetric cfg summary ctrs type net source).info =
      { net with ctr := ctr, counters := counters } := by
  cases type <;> simp only [doNetMetric] <;>
    first
    | exact ⟨net.ctr, net.counters, rfl⟩
    | (simp only [doNetGauge, doNetOpenClose, doNetDuration, doNetRX, doNetTX, sendNetBytes]
       split_ifs <;> exact ⟨_, _, rfl⟩)

theorem doFSMetric_info (cfg : Config) (summary : Summary) (ctrs : MetricCounters)
    (type : MetricT) (fs : FsInfo) (source : ControlType) (op pathname : String) :
    (doFSMetric cfg summary ctrs type fs source op pathname).info.fd = fs.fd := by
  cases type <;> simp only [doFSMetric] <;>
    first
    | rfl
    | (simp only [doFSDuration, doFSReadWrite, doFSCount]
       split_ifs <;> rfl)

def Remits (fd : ℤ) (g : Option Ctr) (acts : List (Ledger.Act ℤ Ctr)) : Prop :=
  acts = [] ∨ ∃ c, g = some c ∧ acts = [.remit fd c]

variable {fd : ℤ} {out : Ledger.Emitted ℤ} {g : Option Ctr} {sent : List Sent} {ops : List Op}

theorem run_reports {τ : Type} {report : State → τ → State × List Sent} {type : τ → MetricT}
    {P : State → Prop} (keep : ∀ s x, P s → P (report s x).1)
    (each : ∀ s x, P s → ∃ acts, Effect cfg k s (report s x).1 (report s x).2 acts ∧
      Remits fd g acts ∧ (type x ≠ k.type → acts = []))
    {xs : List τ} (hxs : (xs.map type).Nodup) (hs : P s) :
    ∃ acts, Effect cfg k s (run report s xs).1 (run report s xs).2.flatten acts ∧
      Remits fd g acts ∧ (k.type ∉ xs.map type → acts = []) := by
  induction xs generalizing s with
  | nil => exact ⟨[], Effect.of_eq rfl rfl, .inl rfl, fun _ => rfl⟩
  | cons x xs ih =>
    rw [map_cons, nodup_cons] at hxs
    obtain ⟨rest, hrest, hremits, hnone⟩ := ih hxs.2 (keep s x hs)
    obtain ⟨acts, he, hacts, hother⟩ := each s x hs
    by_cases hx : type x = k.type
    · rw [hnone (hx ▸ hxs.1)] at hrest
      refine ⟨acts ++ [], he.trans hrest, by rwa [append_nil], fun h => ?_⟩
      exact absurd (mem_cons.mpr (.inl hx.symm)) h
    · rw [hother hx] at he
      refine ⟨[] ++ rest, he.trans hrest, hremits, fun h => ?_⟩
      exact hnone fun hmem => h (mem_cons_of_mem _ hmem)

theorem remits_map {c : Ctr} (h : g = some c) : Remits fd g [.remit fd c] :=
  .inr ⟨c, h, rfl⟩

theorem reportNet_effect (hfd : (s.netinfo fd).fd = fd) (type : MetricT) :
    ∃ acts, Effect cfg k s (reportNet cfg fd s type).1 (reportNet cfg fd s type).2 acts ∧
      Remits fd (netTotal (s.netinfo fd) k) acts ∧ (type ≠ k.type → acts = []) := by
  obtain ⟨hsend, hsilent⟩ := doNetMetric_spec (k := k) cfg s.summary s.ctrs type
    (s.netinfo fd) .periodic
  unfold reportNet
  set r := doNetMetric cfg s.summary s.ctrs type (s.netinfo fd) .periodic
  by_cases h : k.netReported cfg s.summary type (s.netinfo fd) .periodic = true
  · obtain ⟨g, hg, hs⟩ := hsend h
    have hentry : (k.books s).entry fd = netEntry (s.netinfo fd) k := by
      simp [books, fsEntry_of_net hg]
    refine ⟨[.remit fd g], ⟨?_, ?_⟩, remits_map hg, fun ht => ?_⟩
    · rw [books_setNet]
      simp only [run, Ledger.step, hentry]
      refine ext ?_ hs.total rfl
      rw [hs.cleared, fsEntry_of_net hg]
      rfl
    · simp only [run, Ledger.step, hentry, flatten_cons, flatten_nil, append_nil]
      rw [hs.values, hfd]
    · simp [netReported, ht] at h
  · have hs := hsilent (by simpa using h)
    refine ⟨[], Effect.of_eq ?_ hs.values, .inl rfl, fun _ => rfl⟩
    rw [books_setNet_same (s := { s with ctrs := r.ctrs }) hs.kept]
    exact ext rfl hs.total rfl

theorem reportFs_effect (hfd : (s.fsinfo fd).fd = fd) (x : MetricT × String) :
    ∃ acts, Effect cfg k s (reportFs cfg fd s x).1 (reportFs cfg fd s x).2 acts ∧
      Remits fd k.fsTotal acts ∧ (x.1 ≠ k.type → acts = []) := by
  obtain ⟨hsend, hsilent⟩ := doFSMetric_spec (k := k) cfg s.summary s.ctrs x.1
    (s.fsinfo fd) .periodic x.2 ""
  unfold reportFs
  set r := doFSMetric cfg s.summary s.ctrs x.1 (s.fsinfo fd) .periodic x.2 ""
  by_cases h : k.fsReported cfg s.summary x.1 (s.fsinfo fd) .periodic = true
  · obtain ⟨g, hg, hs⟩ := hsend h
    have hnet : ∀ net, netEntry net k = 0 := by
      cases k <;> simp [fsTotal] at hg <;> exact fun _ => rfl
    have hentry : (k.books s).entry fd = k.fsEntry (s.fsinfo fd) := by
      simp [books, hnet]
    refine ⟨[.remit fd g], ⟨?_, ?_⟩, remits_map hg, fun ht => ?_⟩
    · rw [books_setFs]
      simp only [run, Ledger.step, hentry]
      refine ext ?_ hs.total rfl
      rw [hs.cleared, hnet]
      rfl
    · simp only [run, Ledger.step, hentry, flatten_cons, flatten_nil, append_nil]
      rw [hs.values, hfd]
    · simp [fsReported, ht] at h
  · have hs := hsilent (by simpa using h)
    refine ⟨[], Effect.of_eq ?_ hs.values, .inl rfl, fun _ => rfl⟩
    rw [books_setFs_same (s := { s with ctrs := r.ctrs }) hs.kept]
    exact ext rfl hs.total rfl

theorem netReports_nodup (summary : Summary) : ((netReports summary).map id).Nodup := by
  unfold netReports
  split_ifs <;> decide

theorem fsReports_nodup (summary : Summary) : ((fsReports summary).map Prod.fst).Nodup := by
  unfold fsReports
  split_ifs <;> decide

theorem reportSocket_effect (cfg : Config) (s : State) (k : Kind) (fd : ℤ) :
    ∃ acts, Effect cfg k s (reportSocket cfg s fd).1 (reportSocket cfg s fd).2.flatten acts ∧
      Remits fd (netTotal (s.netinfo fd) k) acts ∧
      (k.summarized s.summary = true → acts = []) ∧
      (reportSocket cfg s fd).1.summary = s.summary := by
  rw [reportSocket]
  split
  case isFalse => exact ⟨[], Effect.of_eq rfl rfl, .inl rfl, fun _ => rfl, rfl⟩
  set s₀ := s.setNet fd { s.netinfo fd with fd := fd } with hs₀
  have hentry₀ : s₀.netinfo fd = { s.netinfo fd with fd := fd } := by
    simp [hs₀, State.setNet]
  -- what the reports keep, so that each of them is like the first
  let P : State → Prop := fun t => (t.netinfo fd).fd = fd ∧
    netTotal (t.netinfo fd) k = netTotal (s.netinfo fd) k ∧ t.summary = s.summary
  have hP₀ : P s₀ := by
    refine ⟨by rw [hentry₀], ?_, rfl⟩
    rw [hentry₀]
    cases k <;> rfl
  have keep : ∀ t x, P t → P (reportNet cfg fd t x).1 := by
    rintro t x ⟨hfd, htotal, hsum⟩
    obtain ⟨ctr, counters, hinfo⟩ :=
      doNetMetric_info cfg t.summary t.ctrs x (t.netinfo fd) .periodic
    have hnet : (reportNet cfg fd t x).1.netinfo fd =
        { t.netinfo fd with ctr := ctr, counters := counters } := by
      simp [reportNet, State.setNet, hinfo]
    refine ⟨by rw [hnet]; exact hfd, ?_, hsum⟩
    rw [hnet, ← htotal]
    cases k <;> rfl
  obtain ⟨acts, he, hremits, hnone⟩ :=
    run_reports (g := netTotal (s.netinfo fd) k) (P := P) keep
      (fun t x ht => ht.2.1 ▸ reportNet_effect ht.1 x) (netReports_nodup s.summary) hP₀
  have hbooks : Effect cfg k s s₀ [] [] :=
    Effect.of_eq (books_setNet_same (by cases k <;> rfl)) rfl
  have hrun := run_invariant keep hP₀ (netReports s.summary)
  refine ⟨[] ++ acts, hbooks.trans he, hremits, fun hsum => hnone ?_, hrun.2.2⟩
  cases k <;> simp only [summarized] at hsum <;> simp [netReports, Kind.type, hsum]

theorem reportFile_effect (cfg : Config) (found : Bool × State) (k : Kind) (fd : ℤ) :
    ∃ acts, Effect cfg k found.2 (reportFile cfg fd found).1
        (reportFile cfg fd found).2.flatten acts ∧
      Remits fd k.fsTotal acts ∧ (k.summarized found.2.summary = true → acts = []) := by
  rw [reportFile]
  split
  case isFalse => exact ⟨[], Effect.of_eq rfl rfl, .inl rfl, fun _ => rfl⟩
  set s := found.2
  set s₀ := s.setFs fd { s.fsinfo fd with fd := fd } with hs₀
  let P : State → Prop := fun t => (t.fsinfo fd).fd = fd ∧ t.summary = s.summary
  have hP₀ : P s₀ := ⟨by simp [hs₀, State.setFs], rfl⟩
  have keep : ∀ t x, P t → P (reportFs cfg fd t x).1 := by
    rintro t x ⟨hfd, hsum⟩
    refine ⟨?_, hsum⟩
    have hinfo := doFSMetric_info cfg t.summary t.ctrs x.1 (t.fsinfo fd) .periodic x.2 ""
    simpa [reportFs, State.setFs, hfd] using hinfo
  obtain ⟨acts, he, hremits, hnone⟩ :=
    run_reports (P := P) keep (fun t x ht => reportFs_effect ht.1 x) (fsReports_nodup s.summary) hP₀
  have hbooks : Effect cfg k s s₀ [] [] := by
    refine Effect.of_eq (books_setFs_same ?_) rfl
    cases k.fsCtr <;> rfl
  refine ⟨[] ++ acts, hbooks.trans he, hremits, fun hsum => ?_⟩
  cases hk : k.fsTotal with
  | none =>
    rcases hremits with h | ⟨c, hc, -⟩
    · exact h
    · exact absurd hc (by simp [hk])
  | some c =>
    apply hnone
    cases k <;> simp [fsTotal] at hk <;> simp only [summarized] at hsum <;>
      simp [fsReports, Kind.type, hsum]

def OnlySets (k : Kind) (acts : List (Ledger.Act ℤ Ctr)) : Prop :=
  ∀ a ∈ acts, ∃ f n, a = .set f n ∧ (k.isBytes = true → n = 0)

/-- **What reporting a descriptor does to the books.** A file may have to be opened
first, and its entry starts at zero then; whatever is reported is remitted. -/
theorem reportFD_effect (cfg : Config) (s : State) (k : Kind) (fd : ℤ) (now : UInt64) :
    ∃ sets rem sets', Effect cfg k s (reportFD cfg s fd now).1 (reportFD cfg s fd now).2
        (sets ++ rem ++ sets') ∧
      (∀ a ∈ sets, ∃ f, a = .set f 0) ∧ OnlySets k sets' ∧
      Remits fd (k.entryTotal s fd) rem ∧ (k.summarized s.summary = true → rem = []) := by
  obtain ⟨A, hA, hremitsA, hnoneA, hsumA⟩ := reportSocket_effect cfg s k fd
  obtain ⟨T, hT, hsets⟩ := getFSEntry_tame fd now
  have hkeep := Keeps.getFSEntry (s := (reportSocket cfg s fd).1) cfg fd now
  obtain ⟨B, hB, hremitsB, hnoneB⟩ :=
    reportFile_effect cfg (getFSEntry cfg (reportSocket cfg s fd).1 fd now) k fd
  rw [hkeep.summary, hsumA] at hnoneB
  have he := (hA.trans hT).trans hB
  rw [append_nil] at he
  rw [reportFD_eq]
  -- a kind is of files or of sockets, so one of the two remits nothing
  cases hk : k.fsTotal with
  | some c =>
    have hbytes : k.isBytes = true := by cases k <;> simp [fsTotal] at hk <;> rfl
    have hAnil : A = [] := by
      rcases hremitsA with h | ⟨d, hd, -⟩
      · exact h
      · cases k <;> simp [fsTotal] at hk <;> simp [netTotal] at hd
    subst hAnil
    refine ⟨T, B, [], by rwa [append_nil], ?_, by simp [OnlySets], ?_, hnoneB⟩
    · intro a ha
      obtain ⟨f, n, rfl, hn⟩ := hsets a ha
      exact ⟨f, by rw [hn hbytes]⟩
    · simpa [entryTotal, hk] using hremitsB
  | none =>
    have hBnil : B = [] := by
      rcases hremitsB with h | ⟨d, hd, -⟩
      · exact h
      · exact absurd hd (by simp [hk])
    subst hBnil
    refine ⟨[], A, T, by rwa [append_nil] at he, by simp, hsets, ?_, hnoneA⟩
    simpa [entryTotal, hk] using hremitsA

/-! ## One step -/

def Covers (cfg : Config) (k : Kind) (s : State) : Op → Prop
  | .drain =>
    ∀ msg ∈ s.queue.head?, k.sends cfg s.summary msg = true →
      ∀ q ∈ k.posted msg, q.2.2 ≤ k.total s.ctrs q.2.1
  | .reportFD fd _ =>
    k.summarized s.summary = false →
      ∀ g ∈ k.entryTotal s fd, (k.books s).entry fd ≤ k.total s.ctrs g
  | _ => True

instance (cfg : Config) (k : Kind) (s : State) : ∀ op, Decidable (k.Covers cfg s op)
  | .drain => inferInstanceAs (Decidable (∀ msg ∈ s.queue.head?,
      k.sends cfg s.summary msg = true →
        ∀ q ∈ k.posted msg, q.2.2 ≤ k.total s.ctrs q.2.1))
  | .reportFD .. => inferInstanceAs (Decidable (_ → _))
  | .update .. | .doOpen .. | .doClose .. | .addSock .. | .doSetConnection .. | .doDupSock ..
  | .doTotal _ | .doTotalDuration _ | .setVerbosity _ => inferInstanceAs (Decidable True)

theorem entry_le_of_sets {b : Books ℤ Ctr} {g : Ctr} (h : b.entry fd ≤ b.total g)
    {sets : List (Act ℤ Ctr)} (hsets : ∀ a ∈ sets, ∃ f, a = .set f 0) :
    let b' := (run (Ledger.step cap) b sets).1
    b'.entry fd ≤ b'.total g := by
  induction sets generalizing b with
  | nil => exact h
  | cons a sets ih =>
    obtain ⟨⟨f, rfl⟩, hrest⟩ := forall_mem_cons.mp hsets
    refine ih ?_ hrest
    by_cases hf : fd = f
    · subst hf
      simp [Ledger.step]
    · simpa [Ledger.step, hf] using h

theorem drain_covered (h : k.Covers cfg s .drain) :
    Along (Ledger.step cap) Ledger.Covered (k.books s) (k.drainActs cfg s) := by
  unfold drainActs
  cases hq : s.queue with
  | nil => trivial
  | cons msg queue =>
    dsimp only
    cases hp : k.posted msg with
    | none => trivial
    | some q =>
      have hbooks : (k.books s).queued = q :: queue.filterMap k.posted := by
        simp [books, hq, hp]
      rw [if_pos Option.isSome_some]
      split
      · rename_i hs
        refine ⟨?_, trivial⟩
        intro q' hq'
        rw [hbooks, head?_cons, Option.mem_some_iff] at hq'
        subst hq'
        exact h msg (by rw [hq]; rfl) hs q (by rw [hp]; rfl)
      · exact ⟨trivial, trivial⟩

theorem drainActs_added (cfg : Config) (s : State) (k : Kind) :
    ((k.drainActs cfg s).map Act.added).sum = 0 := by
  unfold drainActs
  split
  · rfl
  · split_ifs <;> rfl

/-- **Every step of the pipeline is a sequence of acts of the ledger.** -/
theorem step_simulates (cfg : Config) (s : State) (k : Kind) (op : Op) :
    ∃ acts, Effect cfg k s (step cfg s op).1 (step cfg s op).2 acts ∧
      (acts.map Act.added).sum = k.gained cfg s op ∧
      (k.Covers cfg s op → Along (Ledger.step cap) Ledger.Covered (k.books s) acts) := by
  have of_records : ∀ {s' : State} {n : ℕ} {p : Prop}, Records cfg k s s' n → ∃ acts,
      Effect cfg k s s' [] acts ∧ (acts.map Act.added).sum = n ∧
      (p → Along (Ledger.step cap) Ledger.Covered (k.books s) acts) := by
    rintro s' n p ⟨acts, he, hquiet, hsum, -⟩
    exact ⟨acts, he, hsum, fun _ => along_covered cap _
      fun a ha => Act.not_deducts_of_quiet (hquiet a ha)⟩
  cases op with
  | update type fd size funcop pathname now =>
    refine ⟨_, update_effect type fd size funcop pathname now,
      updateActs_added cfg s k type fd size, fun _ => ?_⟩
    exact along_covered cap _ fun a ha =>
      Act.not_deducts_of_quiet (updateActs_quiet cfg s k type fd size a ha)
  | doOpen fd path func now => exact of_records (doOpen_records fd path func now)
  | doClose fd func now => exact of_records (doClose_records fd func now)
  | addSock fd type family now => exact of_records (addSock_records fd type family now)
  | doSetConnection sd addr isLocal now =>
    exact of_records (doSetConnection_records sd addr isLocal now)
  | doDupSock oldfd newfd now => exact of_records (doDupSock_records oldfd newfd now)
  | drain =>
    exact ⟨_, drain_effect cfg s k, drainActs_added cfg s k, drain_covered⟩
  | doTotal type =>
    obtain ⟨⟨acts, he, hflush⟩, -⟩ := doTotal_effect cfg s k type
    refine ⟨acts, he, ?_, fun _ => along_covered cap _ fun a ha => ?_⟩
    · refine sum_eq_zero fun n hn => ?_
      obtain ⟨a, ha, rfl⟩ := mem_map.mp hn
      obtain ⟨c, rfl⟩ := hflush a ha
      rfl
    · obtain ⟨c, rfl⟩ := hflush a ha
      rfl
  | doTotalDuration type =>
    exact ⟨[], doTotalDuration_effect cfg s k type, rfl, fun _ => trivial⟩
  | reportFD fd now =>
    obtain ⟨sets, rem, sets', he, hsets, hsets', hrem, hnone⟩ :=
      reportFD_effect cfg s k fd now
    refine ⟨_, he, ?_, fun hcov => ?_⟩
    · refine sum_eq_zero fun n hn => ?_
      obtain ⟨a, ha, rfl⟩ := mem_map.mp hn
      rcases mem_append.mp ha with ha | ha
      · rcases mem_append.mp ha with ha | ha
        · obtain ⟨f, rfl⟩ := hsets a ha
          rfl
        · rcases hrem with rfl | ⟨c, -, rfl⟩
          · exact absurd ha (by simp)
          · rw [mem_singleton.mp ha]
            rfl
      · obtain ⟨f, n, rfl, -⟩ := hsets' a ha
        rfl
    · rw [along_append, along_append]
      refine ⟨⟨along_covered cap _ fun a ha => ?_, ?_⟩, along_covered cap _ fun a ha => ?_⟩
      · obtain ⟨f, rfl⟩ := hsets a ha
        rfl
      · rcases hrem with rfl | ⟨c, hc, rfl⟩
        · trivial
        · have hsum : k.summarized s.summary = false := by
            by_contra h
            exact absurd (hnone (by simpa using h)) (by simp)
          exact ⟨entry_le_of_sets (b := k.books s) (hcov hsum c hc) hsets, trivial⟩
      · obtain ⟨f, n, rfl, -⟩ := hsets' a ha
        rfl
  | setVerbosity v => exact ⟨[], Effect.of_eq rfl rfl, rfl, fun _ => trivial⟩

/-! ## A run -/

def recordedIn (cfg : Config) (k : Kind) (s : State) (ops : List Op) : ℕ :=
  sumAlong (step cfg) (fun s op => k.gained cfg s op) s ops

/-- **A run of the pipeline is a run of the ledger.** -/
theorem process_simulates (cfg : Config) (s : State) (k : Kind) (ops : List Op) :
    ∃ acts, Effect cfg k s (process cfg s ops).1 (process cfg s ops).2 acts ∧
      (acts.map Act.added).sum = k.recordedIn cfg s ops ∧
      (Along (step cfg) (k.Covers cfg) s ops →
        Along (Ledger.step cap) Ledger.Covered (k.books s) acts) := by
  induction ops generalizing s with
  | nil => exact ⟨[], Effect.of_eq rfl rfl, rfl, fun _ => trivial⟩
  | cons op ops ih =>
    obtain ⟨acts, he, hsum, hcov⟩ := step_simulates cfg s k op
    obtain ⟨acts', he', hsum', hcov'⟩ := ih (step cfg s op).1
    refine ⟨acts ++ acts', he.trans he', ?_, fun h => ?_⟩
    · rw [map_append, sum_append, hsum, hsum']
      rfl
    · rw [along_append, ← he.books]
      exact ⟨hcov h.1, hcov' h.2⟩

/-! ## The laws of the pipeline -/

def emitted (k : Kind) (sent : List Sent) : ℤ := ((k.values sent).map Prod.snd).sum

def held (k : Kind) (s : State) : ℕ := Ledger.held (k.books s)

theorem signed_le (n : ℕ) : signed n ≤ n := by
  unfold signed
  split <;> omega

theorem emitted_le (h : k.values sent = reported cfg out) : k.emitted sent ≤ amount out := by
  unfold emitted
  rw [h]
  unfold reported
  clear h
  split
  · induction out with
    | nil => exact le_rfl
    | cons x out ih =>
      have hx := signed_le x.2
      rw [amount_cons, map_cons, map_cons, sum_cons]
      omega
  · exact Int.natCast_nonneg _

theorem sum_signed (h : amount out < 2 ^ 63) : (out.map fun x => signed x.2).sum = amount out := by
  induction out with
  | nil => rfl
  | cons x out ih =>
    rw [amount_cons] at h
    have hx : signed x.2 = x.2 := if_pos (by omega)
    rw [amount_cons, map_cons, sum_cons, ih (by omega), hx]
    rfl

theorem emitted_eq (hmtc : cfg.mtcEnabled = true) (h : k.values sent = reported cfg out)
    (hout : amount out < 2 ^ 63) :
    k.emitted sent = amount out := by
  unfold emitted
  rw [h]
  unfold reported
  rw [if_pos hmtc, map_map]
  exact sum_signed hout

/-- **No more is reported than was recorded**, if every deduction is covered. -/
theorem process_le (h : Along (step cfg) (k.Covers cfg) s ops) :
    k.held (process cfg s ops).1 + k.emitted (process cfg s ops).2 ≤
      k.held s + k.recordedIn cfg s ops := by
  obtain ⟨acts, he, hsum, hcov⟩ := process_simulates cfg s k ops
  have hle := Ledger.run_le (hcov h)
  have hemitted := emitted_le he.values
  rw [← he.books, hsum] at hle
  unfold held
  omega

/-- **What was recorded is reported or still held**, if moreover it is less than
`2 ^ 63` in all. -/
theorem process_eq (hmtc : cfg.mtcEnabled = true) (h : Along (step cfg) (k.Covers cfg) s ops)
    (hfew : k.held s + k.recordedIn cfg s ops < 2 ^ 63) :
    k.held (process cfg s ops).1 + k.emitted (process cfg s ops).2 =
      k.held s + k.recordedIn cfg s ops := by
  obtain ⟨acts, he, hsum, hcov⟩ := process_simulates cfg s k ops
  have hle := Ledger.run_le (hcov h)
  have hcap : Ledger.held (k.books s) + (acts.map Ledger.Act.added).sum ≤ cap := by
    rw [hsum]
    unfold held at hfew
    unfold cap
    omega
  have hge := run_ge hcap
  rw [← he.books, hsum] at hle hge
  unfold held at *
  have hemitted := emitted_eq hmtc he.values (by omega)
  omega

theorem held_init (k : Kind) (verbosity : ℕ) : k.held (init verbosity) = 0 := by
  have hzero : (k.books (init verbosity)).total = fun _ => 0 := by
    funext c
    simp [books, total, init]
  unfold held Ledger.held
  rw [hzero]
  exact Finset.sum_const_zero

end Kind

end AppView.Metrics

import AppView.Metrics.Reporting

/-!
# Every operation as acts of the ledger

The operations of the application threads record at most one amount of a kind
(`recordedBy`) and may overwrite entries; the reporting thread takes from the queue
(`drain`), flushes totals (`doTotal`) or remits entries (`reportFD`).
-/

namespace AppView.Metrics

open AppView.Framework List
open Ledger.Books (ext)

/-! ## Overwriting entries -/

def Tame (cfg : Config) (k : Kind) (s s' : State) : Prop :=
  ∃ acts, Effect cfg k s s' [] acts ∧
    ∀ a ∈ acts, ∃ f n, a = .set f n ∧ (k.isBytes = true → n = 0)

namespace Tame

variable {cfg : Config} {k : Kind} {s s' s'' : State}

theorem of_eq (h : k.books s' = k.books s) : Tame cfg k s s' :=
  ⟨[], Effect.of_eq h rfl, by simp⟩

theorem trans (h : Tame cfg k s s') (h' : Tame cfg k s' s'') : Tame cfg k s s'' := by
  obtain ⟨acts, he, hacts⟩ := h
  obtain ⟨acts', he', hacts'⟩ := h'
  refine ⟨acts ++ acts', he.trans he', ?_⟩
  intro a ha
  rcases mem_append.mp ha with ha | ha
  · exact hacts a ha
  · exact hacts' a ha

theorem setFs {fd : ℤ} {fs : FsInfo} (h : k.fsEntry fs = 0) : Tame cfg k s (s.setFs fd fs) := by
  cases hk : k.fsCtr with
  | none =>
    apply of_eq
    apply Kind.books_setFs_same
    simp [Kind.fsEntry, hk]
  | some c =>
    refine ⟨[.set fd 0], ⟨?_, ?_⟩, by simp⟩
    · rw [Kind.books_setFs, h, Kind.netEntry_of_fs hk]
      rfl
    · simp [run, Ledger.step]

theorem setNet {fd : ℤ} {net : NetInfo}
    (h : k.isBytes = true → Kind.netEntry net k = 0) : Tame cfg k s (s.setNet fd net) := by
  cases hk : Kind.netTotal net k with
  | none =>
    apply of_eq
    apply Kind.books_setNet_same
    cases k <;> first | rfl | simp [Kind.netTotal] at hk
  | some c =>
    refine ⟨[.set fd (Kind.netEntry net k)], ⟨?_, ?_⟩, by simpa using h⟩
    · rw [Kind.books_setNet, Kind.fsEntry_of_net hk, Nat.zero_add]
      rfl
    · simp [run, Ledger.step]

end Tame

/-! ## Recording -/

def Records (cfg : Config) (k : Kind) (s s' : State) (n : ℕ) : Prop :=
  ∃ acts, Effect cfg k s s' [] acts ∧ (∀ a ∈ acts, a.quiet = true) ∧
    (acts.map Ledger.Act.added).sum = n ∧
    (k.isBytes = true → ∀ a ∈ acts, ∃ f, a = .set f 0)

theorem Tame.records {cfg : Config} {k : Kind} {s s' : State} (h : Tame cfg k s s') :
    Records cfg k s s' 0 := by
  obtain ⟨acts, he, hacts⟩ := h
  refine ⟨acts, he, ?_, ?_, ?_⟩
  · intro a ha
    obtain ⟨f, n, rfl, -⟩ := hacts a ha
    rfl
  · rw [sum_eq_zero]
    intro n hn
    obtain ⟨a, ha, rfl⟩ := mem_map.mp hn
    obtain ⟨f, n, rfl, -⟩ := hacts a ha
    rfl
  · intro hb a ha
    obtain ⟨f, n, rfl, hn⟩ := hacts a ha
    exact ⟨f, by rw [hn hb]⟩

theorem Records.trans {cfg : Config} {k : Kind} {s s' s'' : State} {n n' : ℕ}
    (h : Records cfg k s s' n) (h' : Records cfg k s' s'' n') : Records cfg k s s'' (n + n') := by
  obtain ⟨acts, he, hq, hsum, hset⟩ := h
  obtain ⟨acts', he', hq', hsum', hset'⟩ := h'
  refine ⟨acts ++ acts', he.trans he', ?_, ?_, ?_⟩
  · intro a ha
    exact (mem_append.mp ha).elim (hq a) (hq' a)
  · rw [map_append, sum_append, hsum, hsum']
  · intro hb a ha
    exact (mem_append.mp ha).elim (hset hb a) (hset' hb a)

namespace Kind

def updated (cfg : Config) (s : State) (k : Kind) (type : MetricT) (fd size : ℤ) : ℕ :=
  match k.recorded cfg s type fd size with
  | some (_, x) => x
  | none => 0

variable {cfg : Config} {k : Kind} {s : State}

theorem recordActs_quiet (cfg : Config) (summary : Summary) (k : Kind) (fd : ℤ) (c : Ctr)
    (x : ℕ) : ∀ a ∈ k.recordActs cfg summary fd c x, a.quiet = true := by
  unfold recordActs
  split_ifs <;> simp [Ledger.Act.quiet]

theorem recordActs_added (cfg : Config) (summary : Summary) (k : Kind) (fd : ℤ) (c : Ctr)
    (x : ℕ) : ((k.recordActs cfg summary fd c x).map Ledger.Act.added).sum = x := by
  unfold recordActs
  split_ifs <;> simp [Ledger.Act.added]

theorem updateActs_quiet (cfg : Config) (s : State) (k : Kind) (type : MetricT)
    (fd size : ℤ) : ∀ a ∈ k.updateActs cfg s type fd size, a.quiet = true := by
  unfold updateActs
  split
  · exact recordActs_quiet cfg s.summary k fd _ _
  · simp

theorem update_effect (type : MetricT) (fd size : ℤ) (funcop pathname : Option String)
    (now : UInt64) : Effect cfg k s (doUpdateState cfg s type fd size funcop pathname now) []
      (k.updateActs cfg s type fd size) := by
  refine ⟨books_update cfg type fd size funcop pathname now, ?_⟩
  rw [Ledger.run_quiet cap _ (updateActs_quiet cfg s k type fd size)]
  simp

theorem updateActs_added (cfg : Config) (s : State) (k : Kind) (type : MetricT) (fd size : ℤ) :
    ((k.updateActs cfg s type fd size).map Ledger.Act.added).sum =
      k.updated cfg s type fd size := by
  unfold updateActs updated
  cases k.recorded cfg s type fd size with
  | none => rfl
  | some r => exact recordActs_added cfg s.summary k fd r.1 r.2

variable {type : MetricT} {metric : String}

theorem update_records (ht : k.isBytes = true → type ≠ k.type) (fd size : ℤ)
    (funcop pathname : Option String) (now : UInt64) :
    Records cfg k s (doUpdateState cfg s type fd size funcop pathname now)
      (k.updated cfg s type fd size) := by
  refine ⟨_, update_effect type fd size funcop pathname now,
    updateActs_quiet cfg s k type fd size, updateActs_added cfg s k type fd size, ?_⟩
  intro hb
  simp [updateActs, recorded, ht hb]

theorem update_other (ht : type ≠ k.type) (fd size : ℤ) (funcop pathname : Option String)
    (now : UInt64) : Tame cfg k s (doUpdateState cfg s type fd size funcop pathname now) :=
  .of_eq (books_update_other ht fd size funcop pathname now)

/-! ## Opening and closing -/

theorem open_ne (k : Kind) : k.isBytes = true → MetricT.connectionOpen ≠ k.type := by
  cases k <;> decide

theorem close_ne (k : Kind) : k.isBytes = true → MetricT.connectionClose ≠ k.type := by
  cases k <;> decide

variable (fd : ℤ)

theorem openEntry_tame (path func : String) (now : UInt64) :
    Tame cfg k s (openEntry cfg s fd path func now) := by
  refine Tame.trans (Tame.setFs ?_) (update_other ?_ fd 0 _ _ now)
  · unfold fsEntry
    cases k.fsCtr <;> rfl
  · cases k <;> decide

theorem closeRule_tame (now : UInt64) : CloseRule cfg fd now (Tame cfg k) where
  refl _ := .of_eq rfl
  trans := .trans
  opened _ path func := openEntry_tame fd path func now
  closed _ _ := update_other (by cases k <;> decide) _ ..
  inactive _ := .of_eq (books_setNet_same (by cases k <;> rfl))
  cleared _ := .setFs (by unfold fsEntry; cases k.fsCtr <;> rfl)

theorem getFSEntry_tame (now : UInt64) : Tame cfg k s (getFSEntry cfg s fd now).2 :=
  (closeRule_tame fd now).getFSEntry s

theorem postNetState_netinfo (cfg : Config) (s : State) (fd : ℤ) (type : MetricT)
    (net : NetInfo) : (postNetState cfg s fd type net).2.netinfo = s.netinfo := by
  unfold postNetState
  dsimp only
  split <;> rfl

def SameSocket (fd : ℤ) (s s' : State) : Prop :=
  ∃ start, s'.netinfo =
    Function.update s.netinfo fd { s.netinfo fd with startTime := start }

theorem sameSocket_refl (s : State) : SameSocket fd s s :=
  ⟨(s.netinfo fd).startTime, (Function.update_eq_self fd s.netinfo).symm⟩

theorem SameSocket.updated_close {fd : ℤ} {s' : State} (h : SameSocket fd s s') (size : ℤ) :
    k.updated cfg s' .connectionClose fd size = k.updated cfg s .connectionClose fd size := by
  obtain ⟨start, hnet⟩ := h
  cases k <;> simp [updated, recorded, Kind.type, hasNetEntry, countsConnection, hnet]

theorem updateGauge_sameSocket (cfg : Config) (s : State) (fd : ℤ) (type : MetricT)
    (ctr : Ctr) (size : ℤ) (now : UInt64) :
    SameSocket fd s (updateGauge cfg s fd type ctr size now) := by
  unfold SameSocket updateGauge
  rw [postNetState_netinfo]
  split_ifs
  all_goals first
    | exact ⟨now, rfl⟩
    | exact sameSocket_refl fd s

theorem gauges_sameSocket {type : MetricT} (h : type = .openPorts ∨ type = .netConnections)
    (size : ℤ) (funcop pathname : Option String) (now : UInt64) :
    SameSocket fd s (doUpdateState cfg s type fd size funcop pathname now) := by
  rcases h with rfl | rfl <;> simp only [doUpdateState] <;> split
  all_goals first
    | exact updateGauge_sameSocket cfg s fd _ _ size now
    | exact sameSocket_refl fd s

theorem closeSock_records (func : String) (now : UInt64) :
    Records cfg k s (closeSock cfg s fd func now) (k.updated cfg s .connectionClose fd (-1)) := by
  set s₁ := doUpdateState cfg s .openPorts fd (-1) (some func) none now
  set s₂ := doUpdateState cfg s₁ .netConnections fd (-1) (some func) none now
  set s₃ := doUpdateState cfg s₂ .connectionClose fd (-1) (some func) none now
  set s₄ := doUpdateState cfg s₃ .connectionDuration fd (-1) (some func) none now
  have h₁ : Tame cfg k s s₁ := update_other (by cases k <;> decide) _ ..
  have h₂ : Tame cfg k s₁ s₂ := update_other (by cases k <;> decide) _ ..
  have h₃ : Records cfg k s₂ s₃ (k.updated cfg s .connectionClose fd (-1)) := by
    have hports : SameSocket fd s s₁ := gauges_sameSocket fd (.inl rfl) ..
    have hconns : SameSocket fd s₁ s₂ := gauges_sameSocket fd (.inr rfl) ..
    rw [← hports.updated_close, ← hconns.updated_close]
    exact update_records (close_ne k) _ ..
  have h₄ : Tame cfg k s₃ s₄ := update_other (by cases k <;> decide) _ ..
  have h₅ : Tame cfg k s₄ (closeSock cfg s fd func now) :=
    .of_eq (books_setNet_same (by cases k <;> rfl))
  have h := ((h₁.trans h₂).records.trans h₃).trans (h₄.trans h₅).records
  rwa [Nat.zero_add, Nat.add_zero] at h

theorem updated_close_of_no_entry {fd : ℤ} (h : hasNetEntry s fd = false) (size : ℤ) :
    k.updated cfg s .connectionClose fd size = 0 := by
  cases k <;> simp [updated, recorded, Kind.type, h]

theorem doClose_records (func : String) (now : UInt64) : Records cfg k s (doClose cfg s fd func now)
      (k.updated cfg s .connectionClose fd (-1)) := by
  have h : Records cfg k s (if hasNetEntry s fd then closeSock cfg s fd func now else s)
      (k.updated cfg s .connectionClose fd (-1)) := by
    split
    · exact closeSock_records fd func now
    · next hno =>
      rw [updated_close_of_no_entry (by simpa using hno)]
      exact (Tame.of_eq rfl).records
  exact h.trans ((closeRule_tame fd now).closeRest _ func (hasNetEntry s fd)).records

def gained (cfg : Config) (s : State) (k : Kind) : Op → ℕ
  | .update type fd size .. => k.updated cfg s type fd size
  | .doOpen fd .. =>
    if checkFSEntry fd && (s.fsinfo fd).active then
      k.updated cfg s .connectionClose fd (-1)
    else 0
  | .doClose fd _ _ | .addSock fd .. => k.updated cfg s .connectionClose fd (-1)
  | .doSetConnection sd addr isLocal _ =>
    let net := setAddr (s.netinfo sd) addr isLocal
    if hasNetEntry s sd && !addrIsSet (s.netinfo sd) isLocal &&
        addrIsNetDomain net.localConn then
      k.updated cfg (s.setNet sd net) .connectionOpen sd 1
    else 0
  | .doDupSock oldfd newfd now =>
    if checkNetEntry newfd && checkNetEntry oldfd then
      k.updated cfg (s.setNet newfd (dupEntry (s.netinfo oldfd) now)) .connectionOpen
        newfd 1
    else 0
  | _ => 0

theorem doOpen_records (path func : String) (now : UInt64) :
    Records cfg k s (doOpen cfg s fd path func now)
      (k.gained cfg s (.doOpen fd path func now)) := by
  unfold doOpen gained
  by_cases hfd : checkFSEntry fd = true
  · by_cases hactive : (s.fsinfo fd).active = true
    · simp only [hfd, hactive, if_true, Bool.and_true]
      exact (doClose_records fd func now).trans (openEntry_tame fd path func now).records
    · simp only [hfd, hactive, if_true, Bool.and_false]
      exact (openEntry_tame fd path func now).records
  · simp only [hfd, Bool.false_and]
    exact (Tame.of_eq rfl).records

theorem addSock_records (type : ℤ) (family : UInt16) (now : UInt64) :
    Records cfg k s (addSock cfg s fd type family now)
      (k.gained cfg s (.addSock fd type family now)) := by
  unfold addSock gained
  dsimp only
  have fresh : ∀ (t : State) (net : NetInfo), (net.ctr = fun _ => {}) →
      Tame cfg k t (t.setNet fd net) := by
    intro t net hnet
    apply Tame.setNet
    cases k <;> simp [netEntry, isBytes, hnet]
  split_ifs with hfd hactive
  · exact (doClose_records fd _ now).trans (fresh _ _ rfl).records
  · rw [updated_close_of_no_entry (by simp [hasNetEntry, hactive])]
    exact (fresh _ _ rfl).records
  · rw [updated_close_of_no_entry (by simp [hasNetEntry, hfd])]
    exact (Tame.of_eq rfl).records

theorem doSetConnection_records (sd : ℤ) (addr : SockaddrStorage) (isLocal : Bool) (now : UInt64) :
    Records cfg k s (doSetConnection cfg s sd addr isLocal now)
      (k.gained cfg s (.doSetConnection sd addr isLocal now)) := by
  unfold doSetConnection gained
  dsimp only
  have haddr : Tame cfg k s (s.setNet sd (setAddr (s.netinfo sd) addr isLocal)) := by
    refine .of_eq (books_setNet_same ?_)
    cases isLocal <;> cases k <;> rfl
  have hlocal : ((s.setNet sd (setAddr (s.netinfo sd) addr isLocal)).netinfo sd) =
      setAddr (s.netinfo sd) addr isLocal := by
    simp [State.setNet]
  rw [hlocal]
  by_cases hset : (hasNetEntry s sd && !addrIsSet (s.netinfo sd) isLocal) = true
  · rw [if_pos hset, hset, Bool.true_and]
    split
    · have h := haddr.records.trans (update_records (open_ne k) sd 1 none none now)
      rwa [Nat.zero_add] at h
    · exact haddr.records
  · rw [if_neg hset, if_neg (by simp [hset])]
    exact (Tame.of_eq rfl).records

theorem doDupSock_records (oldfd newfd : ℤ) (now : UInt64) :
    Records cfg k s (doDupSock cfg s oldfd newfd now)
      (k.gained cfg s (.doDupSock oldfd newfd now)) := by
  unfold doDupSock gained
  dsimp only
  split
  · have hdup : Tame cfg k s (s.setNet newfd (dupEntry (s.netinfo oldfd) now)) := by
      apply Tame.setNet
      cases k <;> simp [netEntry, isBytes, dupEntry]
    have h := hdup.records.trans (update_records (open_ne k) newfd 1 (some "dup") none now)
    rwa [Nat.zero_add] at h
  · exact (Tame.of_eq rfl).records

/-! ## Draining -/

def sends (cfg : Config) (summary : Summary) (k : Kind) : Msg → Bool
  | .fs fs => k.fsReported cfg summary fs.dataType fs .eventBased
  | .net net => k.netReported cfg summary net.dataType net .eventBased

def drainActs (cfg : Config) (s : State) (k : Kind) : List (Ledger.Act ℤ Ctr) :=
  match s.queue with
  | [] => []
  | msg :: _ =>
    if (k.posted msg).isSome then
      if k.sends cfg s.summary msg then [.send] else [.drop]
    else []

variable {g c : Ctr} {sent : List Sent} {summary : Summary} {value : SockSummaryBucket → Ctr}

theorem posted_fs {fs : FsInfo} (h : fs.dataType = k.type) (hg : k.fsTotal = some g) :
    k.posted (.fs fs) = some (fs.fd, g, k.fsEntry fs) := by
  simp [posted, h, hg]

theorem posted_net {net : NetInfo} (h : net.dataType = k.type) (hg : netTotal net k = some g) :
    k.posted (.net net) = some (net.fd, g, netEntry net k) := by
  simp [posted, h, hg]

theorem handleMsg_spec (cfg : Config) (s : State) (k : Kind) (msg : Msg) :
    (k.sends cfg s.summary msg = true → ∃ fd g v, k.posted msg = some (fd, g, v) ∧
      ∃ v', SendsAmount cfg k s.ctrs (handleMsg cfg s msg).1.ctrs g fd v v'
        (handleMsg cfg s msg).2) ∧
    (k.sends cfg s.summary msg = false → ∃ v v', SendsNothing k s.ctrs
      (handleMsg cfg s msg).1.ctrs v v' (handleMsg cfg s msg).2) := by
  cases msg with
  | fs fs =>
    obtain ⟨hsend, hsilent⟩ := doFSMetric_spec (k := k) cfg s.summary s.ctrs fs.dataType
      fs .eventBased fs.funcop fs.path
    refine ⟨fun h => ?_, fun h => ⟨_, _, hsilent h⟩⟩
    obtain ⟨g, hg, hs⟩ := hsend h
    have ht : fs.dataType = k.type := by
      simp [sends, fsReported] at h
      exact h.1.1.1
    exact ⟨_, _, _, posted_fs ht hg, _, hs⟩
  | net net =>
    obtain ⟨hsend, hsilent⟩ := doNetMetric_spec (k := k) cfg s.summary s.ctrs net.dataType
      net .eventBased
    refine ⟨fun h => ?_, fun h => ⟨_, _, hsilent h⟩⟩
    obtain ⟨g, hg, hs⟩ := hsend h
    have ht : net.dataType = k.type := by
      simp [sends, netReported] at h
      exact h.1.1.1
    exact ⟨_, _, _, posted_net ht hg, _, hs⟩

theorem handleMsg_state (cfg : Config) (s : State) (msg : Msg) :
    (handleMsg cfg s msg).1 = { s with ctrs := (handleMsg cfg s msg).1.ctrs } := by
  cases msg <;> rfl

/-- **What draining does to the books.** -/
theorem drain_effect (cfg : Config) (s : State) (k : Kind) :
    Effect cfg k s (drain cfg s).1 (drain cfg s).2 (k.drainActs cfg s) := by
  unfold drain drainActs
  cases hq : s.queue with
  | nil => exact Effect.of_eq rfl rfl
  | cons msg queue =>
    dsimp only
    set t : State := { s with queue := queue } with ht
    have hstate := handleMsg_state cfg t msg
    obtain ⟨hsend, hsilent⟩ := handleMsg_spec cfg t k msg
    set r := handleMsg cfg t msg
    have hentry : (k.books r.1).entry = (k.books s).entry := by rw [hstate]; rfl
    have hqueued : (k.books r.1).queued = queue.filterMap k.posted := by
      rw [hstate]; rfl
    by_cases hs : k.sends cfg s.summary msg = true
    · obtain ⟨fd, g, v, hp, v', h⟩ := hsend hs
      have hbooks : (k.books s).queued = (fd, g, v) :: queue.filterMap k.posted := by
        simp [books, hq, hp]
      rw [if_pos (by simp [hp]), if_pos hs]
      constructor
      · simp only [run, Ledger.step, hbooks]
        exact ext hentry h.total hqueued
      · simp only [run, Ledger.step, hbooks]
        exact h.values
    · have hs' : k.sends cfg t.summary msg = false := by simpa using hs
      obtain ⟨v, v', h⟩ := hsilent hs'
      cases hp : k.posted msg with
      | none =>
        have hbooks : (k.books s).queued = queue.filterMap k.posted := by
          simp [books, hq, hp]
        rw [if_neg (by simp)]
        refine Effect.of_eq ?_ h.values
        exact ext hentry h.total (hqueued.trans hbooks.symm)
      | some q =>
        have hbooks : (k.books s).queued = q :: queue.filterMap k.posted := by
          simp [books, hq, hp]
        rw [if_pos (by simp), if_neg hs]
        constructor
        · simp only [run, Ledger.step, hbooks]
          exact ext hentry h.total hqueued
        · rw [h.values]
          simp [run, Ledger.step]

/-! ## Totals -/

def withCtrs (s : State) (ctrs : MetricCounters) : State := { s with ctrs := ctrs }

def Flushes (cfg : Config) (k : Kind) (s s' : State) (sent : List Sent) : Prop :=
  ∃ acts, Effect cfg k s s' sent acts ∧ ∀ a ∈ acts, ∃ c, a = .flush c

theorem flushes_of_eq {s' : State} (h : k.books s' = k.books s) (hv : k.values sent = []) :
    Flushes cfg k s s' sent :=
  ⟨[], Effect.of_eq h hv, by simp⟩

theorem Flushes.trans {s' s'' : State} {sent' : List Sent} (h : Flushes cfg k s s' sent)
    (h' : Flushes cfg k s' s'' sent') :
    Flushes cfg k s s'' (sent ++ sent') := by
  obtain ⟨acts, he, hacts⟩ := h
  obtain ⟨acts', he', hacts'⟩ := h'
  refine ⟨acts ++ acts', he.trans he', fun a ha => ?_⟩
  exact (mem_append.mp ha).elim (hacts a) (hacts' a)

theorem reportTotal_other (hm : metric ≠ k.metric) (hc : k.counts c = false) (cfg : Config)
    (ctrs : MetricCounters) (units : String) (agg : DataType) (bucket : Option String) :
    let r := reportTotal cfg ctrs metric units c agg bucket
    k.total r.1 = k.total ctrs ∧ k.values r.2 = [] := by
  unfold reportTotal
  split
  · exact ⟨rfl, rfl⟩
  · refine ⟨?_, values_cmdSendMetric_other cfg _ (.inl hm)⟩
    split
    · funext d
      by_cases h : d = c
      · subst h
        simp [total, hc]
      · simp [total, h]
    · rfl

theorem reportTotal_flushes {ctrs : MetricCounters} {units : String} {bucket : Option String}
    (hm : metric = k.metric) (hc : k.counts c = true) :
    let r := reportTotal cfg ctrs metric units c .delta bucket
    Flushes cfg k (withCtrs s ctrs) (withCtrs s r.1) r.2 := by
  unfold reportTotal
  split
  · exact flushes_of_eq rfl rfl
  · refine ⟨[.flush c], ⟨?_, ?_⟩, by simp⟩
    · exact ext rfl (total_swapMtc hc ctrs) rfl
    · have hv : (k.books (withCtrs s ctrs)).total c = (ctrs c).mtc.toNat := by
        simp [books, withCtrs, total, hc]
      simp only [run, Ledger.step, flatten_cons, flatten_nil, append_nil, hv]
      exact values_cmdSendMetric cfg _ hm rfl rfl rfl

theorem doTotalNetRxTx_flushes (hsum : summary.netRxTx = true) (hm : metric = k.metric)
    (hc : ∀ b, k.counts (value b) = true) (s : State) :
    let r := doTotalNetRxTx cfg summary s.ctrs metric value
    Flushes cfg k s (withCtrs s r.1) r.2 := by
  -- over any list of buckets, from any counters and what has been sent before
  have fold : ∀ (buckets : List SockSummaryBucket) (r : MetricCounters × List Sent),
      Flushes cfg k s (withCtrs s r.1) r.2 →
      Flushes cfg k s (withCtrs s (buckets.foldl (fun r bucket =>
          let t := reportTotal cfg r.1 metric "byte" (value bucket) .delta
            (some (bucketName bucket))
          (t.1, r.2 ++ if summary.netRxTx then t.2 else [])) r).1)
        (buckets.foldl (fun r bucket =>
          let t := reportTotal cfg r.1 metric "byte" (value bucket) .delta
            (some (bucketName bucket))
          (t.1, r.2 ++ if summary.netRxTx then t.2 else [])) r).2 := by
    intro buckets
    induction buckets with
    | nil => exact fun r h => h
    | cons b buckets ih =>
      intro r h
      apply ih
      dsimp only
      rw [if_pos hsum]
      exact h.trans (reportTotal_flushes hm (hc b))
  exact fold allBuckets (s.ctrs, []) (flushes_of_eq rfl rfl)

theorem doTotalNetRxTx_other (hm : metric ≠ k.metric) (hc : ∀ b, k.counts (value b) = false)
    (ctrs : MetricCounters) :
    let r := doTotalNetRxTx cfg summary ctrs metric value
    k.total r.1 = k.total ctrs ∧ k.values r.2 = [] := by
  refine List.foldlRecOn allBuckets _ (motive := fun r : MetricCounters × List Sent =>
    k.total r.1 = k.total ctrs ∧ k.values r.2 = []) ⟨rfl, rfl⟩ ?_
  rintro r ⟨htotal, hvalues⟩ b -
  obtain ⟨ht, hv⟩ :=
    reportTotal_other hm (hc b) cfg r.1 "byte" .delta (some (bucketName b))
  refine ⟨ht.trans htotal, ?_⟩
  rw [values_append, hvalues]
  split
  · exact hv
  · rfl

def totType : Kind → MetricT
  | read => .totRead
  | write => .totWrite
  | rx => .totRx
  | tx => .totTx
  | opened => .totNetOpen
  | closed => .totNetClose

theorem doTotal_other (ht : type ≠ k.totType) (cfg : Config) (summary : Summary)
    (ctrs : MetricCounters) :
    let r := doTotal cfg summary ctrs type
    k.total r.1 = k.total ctrs ∧ k.values r.2 = [] := by
  have gated : ∀ (p : Prop) [Decidable p] (r : MetricCounters × List Sent),
      k.total r.1 = k.total ctrs ∧ k.values r.2 = [] →
      k.total (if p then (ctrs, []) else r).1 = k.total ctrs ∧
        k.values (if p then (ctrs, []) else r).2 = [] := by
    intro p _ r h
    split
    · exact ⟨rfl, rfl⟩
    · exact h
  cases type with
  | totRx | totTx =>
    apply gated
    apply doTotalNetRxTx_other <;> cases k <;>
      first | exact absurd rfl ht | decide | exact fun _ => rfl
  | totRead | totWrite | totSeek | totOpen | totClose | totPorts | totTcpConn
  | totUdpConn | totOtherConn | totNetOpen | totNetClose =>
    apply gated
    apply reportTotal_other <;> cases k <;> first | exact absurd rfl ht | decide
  | _ => exact ⟨rfl, rfl⟩

/-- **What a total does to the books**: it flushes this kind if it is summarised,
and otherwise does nothing to it. -/
theorem doTotal_effect (cfg : Config) (s : State) (k : Kind) (type : MetricT) :
    let r := doTotal cfg s.summary s.ctrs type
    Flushes cfg k s (withCtrs s r.1) r.2 ∧
    (k.summarized s.summary = false → Effect cfg k s (withCtrs s r.1) r.2 []) := by
  by_cases ht : type = k.totType
  · subst ht
    refine ⟨?_, fun hsum => ?_⟩
    · cases k with
      | read | write | opened | closed =>
        simp only [doTotal, totType]
        split
        · exact flushes_of_eq rfl rfl
        · exact reportTotal_flushes rfl rfl
      | rx | tx =>
        simp only [doTotal, totType]
        split
        · exact flushes_of_eq rfl rfl
        · rename_i h
          simp only [Bool.or_eq_true, Bool.not_eq_true', not_or, Bool.not_eq_false] at h
          exact doTotalNetRxTx_flushes h.1 rfl (fun _ => rfl) s
    · refine Effect.of_eq ?_ ?_
      · cases k <;> simp only [summarized] at hsum <;> simp [doTotal, totType, hsum] <;> rfl
      · cases k <;> simp only [summarized] at hsum <;> simp [doTotal, totType, hsum]
  · obtain ⟨htotal, hvalues⟩ := doTotal_other ht cfg s.summary s.ctrs
    have hbooks : k.books (withCtrs s (doTotal cfg s.summary s.ctrs type).1) =
        k.books s := ext rfl htotal rfl
    exact ⟨flushes_of_eq hbooks hvalues, fun _ => Effect.of_eq hbooks hvalues⟩

theorem doTotalDuration_effect (cfg : Config) (s : State) (k : Kind) (type : MetricT) :
    let r := doTotalDuration cfg s.summary s.ctrs type
    Effect cfg k s (withCtrs s r.1) r.2 [] := by
  have swapped : ∀ (c d : Ctr), k.counts c = false → k.counts d = false →
      k.total (swapMtc (swapMtc s.ctrs c) d) = k.total s.ctrs := by
    intro c d hc hd
    funext x
    by_cases hx : k.counts x = true
    · have h1 : x ≠ c := by rintro rfl; exact absurd hx (by simp [hc])
      have h2 : x ≠ d := by rintro rfl; exact absurd hx (by simp [hd])
      simp [total, h1, h2]
    · simp [total, hx]
  have duration : ∀ (metric units : String) (c d : Ctr) (agg : DataType) (factor : UInt64),
      metric ≠ k.metric → k.counts c = false → k.counts d = false →
      let r := reportTotalDuration cfg s.ctrs metric units c d agg factor
      Effect cfg k s (withCtrs s r.1) r.2 [] := by
    intro metric units c d agg factor hm hc hd
    unfold reportTotalDuration
    dsimp only
    generalize (if cInt (s.ctrs d).mtc.toNat ≥ 1 then _ else _) = dur
    split
    · exact Effect.of_eq rfl rfl
    · exact Effect.of_eq (ext rfl (swapped c d hc hd) rfl)
        (values_cmdSendMetric_other cfg _ (.inl hm))
  cases type with
  | totFsDuration | totNetDuration =>
    simp only [doTotalDuration]
    split
    · exact Effect.of_eq rfl rfl
    · apply duration <;> cases k <;> first | rfl | decide
  | _ => exact Effect.of_eq rfl rfl

end Kind

end AppView.Metrics

import AppView.Metrics.Accounts

/-!
# What the pipeline does to the accounts

Recording, draining and reporting, each as acts of the ledger, and then every
operation of the pipeline. The acts differ between the kinds in one point that
matters: a message of received bytes carries what its entry holds, but a message of
an opened connection carries the **process-wide** counter.
-/

namespace AppView.Metrics

open AppView.Framework State

def cap : ℕ := 2 ^ 64 - 1

def signed (n : ℕ) : ℤ := if n < 2 ^ 63 then n else n - 2 ^ 64

theorem longLong_eq (x : UInt64) : longLong x = signed x.toNat := rfl

def reported (cfg : Config) (out : Ledger.Emitted ℤ) : List (Option ℤ × ℤ) :=
  if cfg.mtcEnabled then out.map fun x => (x.1, signed x.2) else []

@[simp] theorem reported_nil (cfg : Config) : reported cfg [] = [] := by
  simp [reported]

theorem reported_append (cfg : Config) (out out' : Ledger.Emitted ℤ) :
    reported cfg (out ++ out') = reported cfg out ++ reported cfg out' := by
  unfold reported
  split <;> simp

structure Effect (cfg : Config) (k : Kind) (s s' : State) (sent : List Sent)
    (acts : List (Ledger.Act ℤ Ctr)) : Prop where
  books : k.books s' = (run (Ledger.step cap) (k.books s) acts).1
  values : k.values sent = reported cfg (run (Ledger.step cap) (k.books s) acts).2.flatten

namespace Effect

variable {cfg : Config} {k : Kind} {s s' s'' : State}

theorem of_eq {sent : List Sent} (h : k.books s' = k.books s) (hv : k.values sent = []) :
    Effect cfg k s s' sent [] :=
  ⟨h, by rw [hv]; simp⟩

theorem trans {sent sent' : List Sent} {acts acts' : List (Ledger.Act ℤ Ctr)}
    (h : Effect cfg k s s' sent acts) (h' : Effect cfg k s' s'' sent' acts') :
    Effect cfg k s s'' (sent ++ sent') (acts ++ acts') := by
  constructor
  · rw [h'.books, h.books, run_append]
  · rw [Kind.values_append, h.values, h'.values, h.books, run_append,
      List.flatten_append, reported_append]

end Effect

namespace Kind

def summarized (summary : Summary) : Kind → Bool
  | read | write => summary.fsReadWrite
  | rx | tx => summary.netRxTx
  | opened | closed => summary.netOpenClose

def watched (cfg : Config) : Kind → Bool
  | read | write => cfg.watchFs
  | _ => cfg.watchNet

def posts (cfg : Config) (summary : Summary) (k : Kind) : Bool :=
  cfg.srcMetric || (match k with | read | write => cfg.srcFs | _ => cfg.srcNet) ||
    (cfg.mtcEnabled && !k.summarized summary)

def recordActs (cfg : Config) (summary : Summary) (k : Kind) (fd : ℤ) (c : Ctr) (x : ℕ) :
    List (Ledger.Act ℤ Ctr) :=
  if k.posts cfg summary then
    if k.isBytes then
      if k.summarized summary then [.add fd c x, .post fd c] else [.settle fd c x]
    else if k.summarized summary then [.add fd c x, .postTotal fd c]
    else [.add fd c x, .postTotal fd c, .set fd 0]
  else [.add fd c x]

def recorded (cfg : Config) (s : State) (k : Kind) (type : MetricT) (fd size : ℤ) :
    Option (Ctr × ℕ) :=
  if type = k.type then
    match k with
    | read => if checkFSEntry fd then some (.readBytes, (u64 size).toNat) else none
    | write => if checkFSEntry fd then some (.writeBytes, (u64 size).toNat) else none
    | rx =>
      if hasNetEntry s fd then
        some (.netrxBytes (getNetRxTxBucket (s.netinfo fd)), (u64 size).toNat)
      else none
    | tx =>
      if hasNetEntry s fd then
        some (.nettxBytes (getNetRxTxBucket (s.netinfo fd)), (u64 size).toNat)
      else none
    | opened =>
      if hasNetEntry s fd && countsConnection cfg (s.netinfo fd) then
        some (.netConnOpen, 1)
      else none
    | closed =>
      if hasNetEntry s fd && countsConnection cfg (s.netinfo fd) then
        some (.netConnClose, 1)
      else none
  else none

def updateActs (cfg : Config) (s : State) (k : Kind) (type : MetricT) (fd size : ℤ) :
    List (Ledger.Act ℤ Ctr) :=
  match k.recorded cfg s type fd size with
  | some (c, x) => k.recordActs cfg s.summary fd c x
  | none => []

variable {k : Kind} {s : State}

/-! ## Recording -/

variable {g : Ctr} {fd : ℤ} {msg : Msg} {c : FsCtr}

theorem total_addTo (hg : k.counts g = true) (ctrs : MetricCounters) (x : UInt64) :
    k.total (addTo ctrs g x) =
      Function.update (k.total ctrs) g (min (k.total ctrs g + x.toNat) cap) := by
  funext c
  by_cases h : c = g
  · subst h
    simp [total, hg, cap]
  · simp [total, h]

theorem total_subFrom (hg : k.counts g = true) (ctrs : MetricCounters) (x : UInt64) :
    k.total (subFrom ctrs g x) = Function.update (k.total ctrs) g (k.total ctrs g - x.toNat) := by
  funext c
  by_cases h : c = g
  · subst h
    simp [total, hg]
  · simp [total, h]

theorem total_swapMtc (hg : k.counts g = true) (ctrs : MetricCounters) :
    k.total (swapMtc ctrs g) = Function.update (k.total ctrs) g 0 := by
  funext c
  by_cases h : c = g
  · subst h
    simp [total, hg]
  · simp [total, h]

theorem books_add {s' : State} {x : UInt64} (hg : k.counts g = true)
    (hctrs : s'.ctrs = addTo s.ctrs g x) (hqueue : s'.queue = s.queue)
    (hsame : ∀ fd' ≠ fd, (k.books s').entry fd' = (k.books s).entry fd')
    (hfd : (k.books s').entry fd = min ((k.books s).entry fd + x.toNat) cap) :
    k.books s' = (Ledger.step cap (k.books s) (.add fd g x.toNat)).1 := by
  ext : 1
  · funext fd'
    by_cases h : fd' = fd
    · subst h
      simp [Ledger.step, hfd]
    · simp [Ledger.step, h, hsame fd' h]
  · show k.total s'.ctrs = _
    rw [hctrs, total_addTo hg]
    rfl
  · show s'.queue.filterMap k.posted = _
    rw [hqueue]
    rfl

theorem books_post {s' : State} (hmsg : k.posted msg = some (fd, g, (k.books s).entry fd))
    (hs : s' = { s with queue := s.queue ++ [msg] }) :
    k.books s' = (Ledger.step cap (k.books s) (.post fd g)).1 := by
  subst hs
  simp [books, Ledger.step, hmsg]

theorem books_postTotal {s' : State} (hmsg : k.posted msg = some (fd, g, (k.books s).total g))
    (hs : s' = { s with queue := s.queue ++ [msg] }) :
    k.books s' = (Ledger.step cap (k.books s) (.postTotal fd g)).1 := by
  subst hs
  simp [books, Ledger.step, hmsg]

theorem postFSState_eq (hk : k.fsCtr = some c) (cfg : Config) (s : State) (fd : ℤ)
    (fs : FsInfo) (funcop pathname : Option String) :
    ∃ msg, k.posted msg = (k.fsTotal).map (fun g => (fd, g, k.fsEntry fs)) ∧
      postFSState cfg s fd k.type (some fs) funcop pathname =
        if k.posts cfg s.summary then
          (!k.summarized s.summary, { s with queue := s.queue ++ [msg] })
        else (false, s) := by
  refine ⟨.fs { fs with
    fd := fd, dataType := k.type
    path := if fs.path = "" then pathname.getD "" else fs.path
    funcop := if fs.funcop = "" then funcop.getD "" else fs.funcop }, ?_, ?_⟩
  · cases k <;> simp [fsCtr] at hk <;> simp [posted, fsTotal, fsEntry, fsCtr]
  · cases k <;> simp [fsCtr] at hk <;>
      simp [postFSState, type, fsSummarize, posts, summarized]

theorem postNetState_eq {net : NetInfo} (hk : netTotal net k = some g) (cfg : Config)
    (s : State) (fd : ℤ) : ∃ msg, k.posted msg =
        some (fd, g, if k.isBytes then netEntry net k else (s.ctrs g).mtc.toNat) ∧
      postNetState cfg s fd k.type net =
        if k.posts cfg s.summary then
          (!k.summarized s.summary, { s with queue := s.queue ++ [msg] })
        else (false, s) := by
  refine ⟨.net { net with fd := fd, dataType := k.type, counters := s.ctrs }, ?_, ?_⟩
  · cases k <;> simp [netTotal] at hk <;> subst hk <;>
      simp [posted, netTotal, netEntry, isBytes, getNetRxTxBucket]
  · cases k <;> simp [netTotal] at hk <;>
      simp [postNetState, type, netSummarize, posts, summarized]

theorem netEntry_of_fs (hk : k.fsCtr = some c) (net : NetInfo) : netEntry net k = 0 := by
  cases k <;> simp [fsCtr] at hk <;> rfl

theorem fsEntry_of_net {net : NetInfo} (hk : netTotal net k = some g) (fs : FsInfo) :
    k.fsEntry fs = 0 := by
  cases k <;> simp [netTotal] at hk <;> rfl

theorem isBytes_of_fs (hk : k.fsCtr = some c) : k.isBytes = true := by
  cases k <;> simp [fsCtr] at hk <;> rfl

theorem books_record {cfg : Config} {t : State} {x : ℕ} {r : Bool × State}
    (clear : State → State) (added : k.books t = (Ledger.step cap (k.books s) (.add fd g x)).1)
    (hsummary : t.summary = s.summary)
    (hmsg : k.posted msg =
      some (fd, g, if k.isBytes then (k.books t).entry fd else (k.books t).total g))
    (hpost : r = if k.posts cfg t.summary then
      (!k.summarized t.summary, { t with queue := t.queue ++ [msg] }) else (false, t))
    (hclear : ∀ u, k.books (clear u) = (Ledger.step cap (k.books u) (.set fd 0)).1) :
    k.books (if r.1 then clear r.2 else r.2) =
      (run (Ledger.step cap) (k.books s) (k.recordActs cfg s.summary fd g x)).1 := by
  subst hpost
  rw [← hsummary]
  unfold recordActs
  by_cases hp : k.posts cfg t.summary = true
  · by_cases hs : k.summarized t.summary = true
    · simp only [hp, hs, if_true, Bool.not_true, Bool.false_eq_true, if_false]
      split_ifs at hmsg ⊢ with hb
      · rw [books_post hmsg rfl, added]
        rfl
      · rw [books_postTotal hmsg rfl, added]
        rfl
    · simp only [hp, hs, if_true, Bool.not_false, Bool.false_eq_true, if_false]
      rw [hclear]
      split_ifs at hmsg ⊢ with hb
      · rw [books_post hmsg rfl, added]
        exact (Ledger.step_settle cap (k.books s) fd g x).symm
      · rw [books_postTotal hmsg rfl, added]
        rfl
  · simp only [hp, Bool.false_eq_true, if_false]
    rw [added]
    rfl

theorem books_record_fs {num : FsCtr} (hk : k.fsCtr = some c) (hg : k.fsTotal = some g)
    (hcounts : k.counts g = true) (hnum : c ≠ num) (cfg : Config) (fd : ℤ) (x : UInt64)
    (funcop pathname : Option String) :
    k.books (updateFs cfg s fd k.type [(num, 1), (c, x)] [(g, x)] funcop pathname) =
      (run (Ledger.step cap) (k.books s) (k.recordActs cfg s.summary fd g x.toNat)).1 := by
  set t : State := (s.fsCtr fd fun d => addTo (addTo d num 1) c x).globals
    fun d => addTo d g x with ht
  have entry_t : (k.books t).entry fd = k.fsEntry (t.fsinfo fd) := by
    simp [books, netEntry_of_fs hk]
  obtain ⟨msg, hmsg, hpost⟩ :=
    postFSState_eq hk cfg t fd (t.fsinfo fd) funcop pathname
  have hupdate : updateFs cfg s fd k.type [(num, 1), (c, x)] [(g, x)] funcop pathname =
      let r := postFSState cfg t fd k.type (some (t.fsinfo fd)) funcop pathname
      if r.1 then r.2.fsCtr fd fun d => swapMtc (swapMtc d num) c else r.2 := rfl
  rw [hupdate]
  refine books_record (t := t) (fun u => u.fsCtr fd fun d => swapMtc (swapMtc d num) c)
    ?_ rfl ?_ hpost ?_
  · refine books_add hcounts rfl rfl ?_ ?_
    · intro fd' hne
      simp [ht, books, State.globals, State.fsCtr, State.setFs, hne]
    · rw [entry_t]
      simp [ht, books, fsEntry, hk, netEntry_of_fs hk, State.globals, State.fsCtr, setFs, hnum, cap]
  · rw [hmsg, hg, if_pos (isBytes_of_fs hk), entry_t]
    rfl
  · intro u
    show k.books (setFs _ fd _) = _
    rw [books_setFs]
    simp [fsEntry, hk, netEntry_of_fs hk, Ledger.step]

theorem books_record_net {c num : NetCtr} {global : SockSummaryBucket → Ctr}
    (hk : ∀ net, netEntry net k = (net.ctr c).mtc.toNat)
    (hg : ∀ net, netTotal net k = some (global (getNetRxTxBucket net)))
    (hcounts : ∀ b, k.counts (global b) = true) (hbytes : k.isBytes = true)
    (hnum : c ≠ num) (cfg : Config) (fd size : ℤ) :
    k.books (updateNetBytes cfg s fd k.type num c global size) = (run (Ledger.step cap) (k.books s)
        (k.recordActs cfg s.summary fd (global (getNetRxTxBucket (s.netinfo fd)))
          (u64 size).toNat)).1 := by
  set g := global (getNetRxTxBucket (s.netinfo fd)) with hgdef
  set t : State := (s.netCtr fd fun d => addTo (addTo d num 1) c (u64 size)).globals
    fun d => addTo d g (u64 size) with ht
  have hfs : ∀ fs, k.fsEntry fs = 0 := fsEntry_of_net (hg (s.netinfo fd))
  have bucket : getNetRxTxBucket (t.netinfo fd) = getNetRxTxBucket (s.netinfo fd) := by
    simp [ht, globals, netCtr, setNet, getNetRxTxBucket]
  have bucket' : getNetRxTxBucket ((s.netCtr fd fun d =>
      addTo (addTo d num 1) c (u64 size)).netinfo fd) =
      getNetRxTxBucket (s.netinfo fd) := bucket
  have entry_t : (k.books t).entry fd = netEntry (t.netinfo fd) k := by
    simp [books, hfs]
  obtain ⟨msg, hmsg, hpost⟩ := postNetState_eq (hg (t.netinfo fd)) cfg t fd
  have hupdate : updateNetBytes cfg s fd k.type num c global size =
      let r := postNetState cfg t fd k.type (t.netinfo fd)
      if r.1 then r.2.netCtr fd fun d => swapMtc (swapMtc d num) c else r.2 := by
    simp [updateNetBytes, bucket', ht, hgdef]
  rw [hupdate]
  refine books_record (t := t) (fun u => u.netCtr fd fun d => swapMtc (swapMtc d num) c)
    ?_ rfl ?_ hpost ?_
  · refine books_add (hcounts _) rfl rfl ?_ ?_
    · intro fd' hne
      simp [ht, books, globals, netCtr, setNet, hne]
    · rw [entry_t]
      simp [ht, books, hk, hfs, globals, netCtr, setNet, hnum, cap]
  · rw [hmsg, hbytes, bucket, entry_t]
    rfl
  · intro u
    show k.books (setNet _ fd _) = _
    rw [books_setNet]
    simp [hk, hfs, Ledger.step]

theorem books_record_connection (hk : ∀ net, netEntry net k = (net.counters g).mtc.toNat)
    (hg : ∀ net, netTotal net k = some g) (hcounts : k.counts g = true)
    (hbytes : k.isBytes = false) (cfg : Config) (fd : ℤ)
    (hcount : countsConnection cfg (s.netinfo fd) = true) :
    k.books (updateConnection cfg s fd k.type g) =
      (run (Ledger.step cap) (k.books s) (k.recordActs cfg s.summary fd g 1)).1 := by
  set t : State := (s.netCounters fd fun d => addTo d g 1).globals fun d => addTo d g 1 with ht
  have hfs : ∀ fs, k.fsEntry fs = 0 := fsEntry_of_net (hg (s.netinfo fd))
  obtain ⟨msg, hmsg, hpost⟩ := postNetState_eq (hg (t.netinfo fd)) cfg t fd
  have hupdate : updateConnection cfg s fd k.type g =
      let r := postNetState cfg t fd k.type (t.netinfo fd)
      (if r.1 then r.2.netCounters fd fun d => swapMtc d g else r.2).netCounters fd
        fun d => swapEvt d g := by
    simp [updateConnection, hcount, ht]
  rw [hupdate, books_netCounters (by simp) (by simp)]
  refine books_record (t := t) (x := 1) (fun u => u.netCounters fd fun d => swapMtc d g)
    ?_ rfl ?_ hpost ?_
  · refine books_add (x := 1) hcounts rfl rfl ?_ ?_
    · intro fd' hne
      simp [ht, books, globals, netCounters, setNet, hne]
    · simp [ht, books, hk, hfs, globals, netCounters, setNet, cap]
  · rw [hmsg, hbytes]
    simp [books, total, hcounts]
  · intro u
    show k.books (setNet _ fd _) = _
    rw [books_setNet]
    simp [hk, hfs, Ledger.step]

theorem books_connection_uncounted {cfg : Config} {type : MetricT}
    (hcount : countsConnection cfg (s.netinfo fd) = false) :
    k.books (updateConnection cfg s fd type g) = k.books s := by
  simp only [updateConnection, hcount, Bool.false_eq_true, if_false]
  exact books_netCounters (by simp) (by simp)

/-- **What an update does to the books.** -/
theorem books_update (cfg : Config) (type : MetricT) (fd size : ℤ)
    (funcop pathname : Option String) (now : UInt64) :
    k.books (doUpdateState cfg s type fd size funcop pathname now) =
      (run (Ledger.step cap) (k.books s) (k.updateActs cfg s type fd size)).1 := by
  by_cases ht : type = k.type
  · subst ht
    cases k with
    | read | write =>
      simp only [updateActs, recorded, if_true, doUpdateState, Kind.type]
      by_cases hfd : checkFSEntry fd = true
      · simp only [hfd, if_true]
        exact books_record_fs rfl rfl rfl (by decide) cfg fd (u64 size) funcop pathname
      · simp only [hfd]
        rfl
    | rx | tx =>
      simp only [updateActs, recorded, if_true, doUpdateState, Kind.type]
      by_cases hfd : hasNetEntry s fd = true
      · simp only [hfd, if_true]
        exact books_record_net (fun _ => rfl) (fun _ => rfl) (fun _ => rfl) rfl (by decide)
          cfg fd size
      · simp only [hfd]
        rfl
    | opened | closed =>
      simp only [updateActs, recorded, if_true, doUpdateState, Kind.type]
      by_cases hfd : hasNetEntry s fd = true
      · by_cases hcount : countsConnection cfg (s.netinfo fd) = true
        · simp only [hfd, hcount, Bool.and_true, if_true]
          exact books_record_connection (fun _ => rfl) (fun _ => rfl) rfl rfl cfg fd hcount
        · rw [Bool.not_eq_true] at hcount
          simp only [hfd, hcount, Bool.and_false, if_true]
          exact books_connection_uncounted hcount
      · simp only [hfd, Bool.false_and]
        rfl
  · rw [books_update_other ht]
    simp [updateActs, recorded, ht]

end Kind

end AppView.Metrics

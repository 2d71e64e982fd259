import AppView.Metrics.Simulation

/-!
# Bytes read, written, received and sent

At a fixed verbosity one of two ways of reporting is in use for a kind of bytes.

* If it is **summarised**, nothing is deducted from the process-wide counters; they
  are flushed by the periodic totals, and hold what has not been reported.
* If it is **not summarised**, every update moves its amount to the queue, so that
  the descriptor tables hold nothing between two operations, and the queue holds
  what has not been reported, for each descriptor.

A value is sent as a `long long`, so an amount of `2 ^ 63` or more that is reported
at once does not arrive as that amount.
-/

namespace AppView.Metrics

open AppView.Framework List Ledger

namespace Kind

variable {cfg : Config} {k : Kind} {s : State}

/-! ## What is transferred -/

def tracked (k : Kind) (s : State) (fd : ℤ) : Bool :=
  match k with
  | read | write => checkFSEntry fd
  | _ => hasNetEntry s fd

def sized (k : Kind) : Op → Bool
  | .update type _ size _ _ _ => type ≠ k.type || (0 ≤ size && size < 2 ^ 63)
  | _ => true

variable {type : MetricT} {fd size : ℤ} {op : Op} {ops : List Op} {v : ℕ} {msg : Msg}
    {s' : State} {sent : List Sent}

theorem size_of_sized {funcop pathname : Option String} {now : UInt64}
    (h : k.sized (.update type fd size funcop pathname now) = true) (ht : type = k.type) :
    (u64 size).toNat = size.toNat := by
  simp only [sized, ht, ne_eq, not_true, decide_false, Bool.false_or, Bool.and_eq_true,
    decide_eq_true_eq] at h
  exact u64_toNat h.1 h.2

def transferred (k : Kind) (p : ℤ → Bool) (s : State) : Op → ℕ
  | .update type fd size _ _ _ =>
    if type = k.type ∧ k.tracked s fd = true ∧ p fd = true then size.toNat else 0
  | _ => 0

def transferredIn (cfg : Config) (k : Kind) (p : ℤ → Bool) (s : State) (ops : List Op) : ℕ :=
  sumAlong (step cfg) (k.transferred p) s ops

def bytesTotal (k : Kind) (s : State) (fd : ℤ) : Ctr :=
  match k with
  | read => .readBytes
  | write => .writeBytes
  | rx => .netrxBytes (getNetRxTxBucket (s.netinfo fd))
  | _ => .nettxBytes (getNetRxTxBucket (s.netinfo fd))

theorem recorded_bytes (hk : k.isBytes = true) (cfg : Config) (s : State) (type : MetricT)
    (fd size : ℤ) : k.recorded cfg s type fd size =
      if type = k.type ∧ k.tracked s fd = true then
        some (k.bytesTotal s fd, (u64 size).toNat)
      else none := by
  unfold recorded
  by_cases ht : type = k.type
  · cases k <;> simp [isBytes] at hk <;> simp [ht, tracked, bytesTotal]
  · simp [ht]

theorem gained_bytes (hk : k.isBytes = true) (hop : k.sized op = true) :
    k.gained cfg s op = k.transferred (fun _ => true) s op := by
  have hclose : ∀ (s : State) (fd size : ℤ), k.updated cfg s .connectionClose fd size = 0 := by
    intro s fd size
    simp [updated, recorded, close_ne k hk]
  have hopen : ∀ (s : State) (fd size : ℤ), k.updated cfg s .connectionOpen fd size = 0 := by
    intro s fd size
    simp [updated, recorded, open_ne k hk]
  cases op with
  | update type fd size funcop pathname now =>
    simp only [gained, updated, transferred, recorded_bytes hk, and_true]
    split_ifs with ht
    · exact size_of_sized hop ht.1
    · rfl
  | doOpen _ _ _ _ | doClose _ _ _ | addSock _ _ _ _ | doSetConnection _ _ _ _
  | doDupSock _ _ _ => simp [gained, transferred, hclose, hopen]
  | _ => rfl

theorem recordedIn_bytes (hk : k.isBytes = true) (hops : ∀ op ∈ ops, k.sized op = true) :
    k.recordedIn cfg s ops = k.transferredIn cfg (fun _ => true) s ops := by
  induction ops generalizing s with
  | nil => rfl
  | cons op ops ih =>
    obtain ⟨hop, hrest⟩ := forall_mem_cons.mp hops
    exact congrArg₂ (· + ·) (gained_bytes hk hop) (ih hrest)

/-! ## Summarised -/

theorem covers_of_summarized (h : k.summarized s.summary = true) (op : Op) : k.Covers cfg s op := by
  cases op with
  | drain =>
    intro msg _ hs
    exfalso
    cases msg <;> simp [sends, fsReported, netReported, notReported, h] at hs
  | reportFD fd now =>
    intro hsum
    exact absurd h (by simp [hsum])
  | _ => trivial

theorem along_covers_of_summarized (h : k.summarized s.summary = true)
    (hops : ∀ op ∈ ops, op.keepsVerbosity = true) : Along (step cfg) (k.Covers cfg) s ops := by
  induction ops generalizing s with
  | nil => trivial
  | cons op ops ih =>
    obtain ⟨hop, hrest⟩ := forall_mem_cons.mp hops
    exact ⟨covers_of_summarized h op, ih (by rwa [step_summary cfg s hop]) hrest⟩

/-- **Summarised bytes**: what is not reported is held by the process-wide
counters. -/
theorem summarized_conserved (hmtc : cfg.mtcEnabled = true) (hk : k.isBytes = true)
    (hsum : k.summarized (setVerbosity v) = true)
    (hfixed : ∀ op ∈ ops, op.keepsVerbosity = true) (hsized : ∀ op ∈ ops, k.sized op = true)
    (hfew : k.transferredIn cfg (fun _ => true) (init v) ops < 2 ^ 63) :
    k.emitted (process cfg (init v) ops).2 + k.held (process cfg (init v) ops).1 =
      k.transferredIn cfg (fun _ => true) (init v) ops := by
  have hcov : Along (step cfg) (k.Covers cfg) (init v) ops :=
    along_covers_of_summarized hsum hfixed
  rw [← recordedIn_bytes hk hsized] at hfew ⊢
  have h := process_eq hmtc hcov (by rw [held_init]; omega)
  rw [held_init] at h
  omega

/-! ## Not summarised -/

def hasEvent (k : Kind) : Msg → Bool
  | .fs _ => true
  | .net net =>
    match k with
    | rx => (net.ctr .rxBytes).evt ≠ 0
    | tx => (net.ctr .txBytes).evt ≠ 0
    | _ => true

def Sendable (k : Kind) (msg : Msg) : Prop :=
  ∀ q ∈ k.posted msg, q.2.2 ≠ 0 → k.hasEvent msg = true

theorem sendable_of_not_posted (h : k.posted msg = none) : k.Sendable msg := by
  intro q hq
  rw [h] at hq
  cases hq

theorem sends_of_sendable (hk : k.isBytes = true) (hsum : k.summarized s.summary = false)
    (hwatch : k.watched cfg = true) (h : k.Sendable msg) {q : ℤ × Ctr × ℕ}
    (hq : k.posted msg = some q) (hne : q.2.2 ≠ 0) : k.sends cfg s.summary msg = true := by
  have hevent := h q hq hne
  have hrep : notReported (k.summarized s.summary) (k.watched cfg) .eventBased = false := by
    simp [notReported, hsum, hwatch]
  cases msg with
  | fs fs =>
    by_cases ht : fs.dataType = k.type
    · cases k <;> simp [isBytes] at hk <;> simp [posted, ht, fsTotal] at hq <;>
        subst hq <;> simp [sends, fsReported, fsCtr, ht, hrep] <;> exact hne
    · simp [posted, ht] at hq
  | net net =>
    by_cases ht : net.dataType = k.type
    · cases k <;> simp [isBytes] at hk <;> simp [posted, ht, netTotal] at hq <;>
        subst hq <;> simp [hasEvent] at hevent <;>
        simp [sends, netReported, netTotal, ht, hrep, hevent] <;>
        exact fun h0 => hne (toNat_eq_zero.mpr h0)
    · simp [posted, ht] at hq

structure Settled (cfg : Config) (k : Kind) (s : State) : Prop where
  bytes : k.isBytes = true
  enabled : cfg.mtcEnabled = true
  watched : k.watched cfg = true
  unsummarized : k.summarized s.summary = false
  clean : Ledger.Clean (k.books s)
  sendable : ∀ msg ∈ s.queue, k.Sendable msg

theorem Settled.posts (h : Settled cfg k s) : k.posts cfg s.summary = true := by
  simp [Kind.posts, h.enabled, h.unsummarized]

theorem sendable_of_keeps (hkeep : Keeps s s')
    (hqueued : (k.books s').queued = (k.books s).queued) (h : ∀ msg ∈ s.queue, k.Sendable msg) :
    ∀ msg ∈ s'.queue, k.Sendable msg := by
  obtain ⟨new, hnew⟩ := hkeep.queue
  have hnone : new.filterMap k.posted = [] := by
    have hq : (s.queue ++ new).filterMap k.posted = s.queue.filterMap k.posted := by
      rw [hnew]
      exact hqueued
    rw [filterMap_append] at hq
    exact append_right_eq_self.mp hq
  intro msg hmsg
  rw [← hnew] at hmsg
  rcases mem_append.mp hmsg with hmsg | hmsg
  · exact h msg hmsg
  · exact sendable_of_not_posted (filterMap_eq_nil_iff.mp hnone msg hmsg)

theorem atomicAddU64_ne_zero {a x : UInt64} (h : x ≠ 0) : atomicAddU64 a x ≠ 0 := by
  intro h0
  have hx : x.toNat ≠ 0 := mt toNat_eq_zero.mp h
  have := atomicAddU64_toNat a x
  rw [h0] at this
  have hz : (0 : UInt64).toNat = 0 := rfl
  omega

theorem evt_of_mtc {ctr : NetCtr → CountersElement} {num c : NetCtr} {x : UInt64}
    (hne : c ≠ num) (hclean : (ctr c).mtc = 0) (h : (addTo (addTo ctr num 1) c x c).mtc ≠ 0) :
    (addTo (addTo ctr num 1) c x c).evt ≠ 0 := by
  have hval : addTo (addTo ctr num 1) c x c = addToInterfaceCounts (ctr c) x := by
    rw [addTo_same, addTo_ne _ _ hne]
  rw [hval] at h ⊢
  refine atomicAddU64_ne_zero fun hx => h ?_
  subst hx
  show atomicAddU64 (ctr c).mtc 0 = 0
  rw [hclean]
  rfl

theorem mem_postNetState {net : NetInfo} (h : msg ∈ (postNetState cfg s fd type net).2.queue) :
    msg ∈ s.queue ∨ msg = .net { net with fd := fd, dataType := type, counters := s.ctrs } := by
  unfold postNetState at h
  dsimp only at h
  split at h
  · exact (mem_append.mp h).imp_right mem_singleton.mp
  · exact .inl h

theorem mem_updateNetBytes {num c : NetCtr} {global : SockSummaryBucket → Ctr}
    (h : msg ∈ (updateNetBytes cfg s fd type num c global size).queue) : msg ∈ s.queue ∨ ∃ counters,
      msg = .net { s.netinfo fd with
        ctr := addTo (addTo (s.netinfo fd).ctr num 1) c (u64 size)
        fd := fd, dataType := type, counters := counters } := by
  set t := (s.netCtr fd fun ctr => addTo (addTo ctr num 1) c (u64 size)).globals fun ctr =>
    addTo ctr (global (getNetRxTxBucket
      ((s.netCtr fd fun ctr => addTo (addTo ctr num 1) c (u64 size)).netinfo fd))) (u64 size)
    with ht
  have hnet : t.netinfo fd = { s.netinfo fd with
      ctr := addTo (addTo (s.netinfo fd).ctr num 1) c (u64 size) } := by
    simp [ht, State.globals, State.netCtr, State.setNet]
  have hpost : msg ∈ (postNetState cfg t fd type (t.netinfo fd)).2.queue := by
    unfold updateNetBytes at h
    dsimp only at h
    split at h
    · exact h
    · exact h
  rcases mem_postNetState hpost with hold | rfl
  · exact .inl hold
  · exact .inr ⟨t.ctrs, by rw [hnet]⟩

theorem update_sendable (h : Settled cfg k s) (type : MetricT) (fd size : ℤ)
    (funcop pathname : Option String) (now : UInt64) :
    ∀ msg ∈ (doUpdateState cfg s type fd size funcop pathname now).queue, k.Sendable msg := by
  by_cases ht : type = k.type
  · subst ht
    have hclean : k.fsEntry (s.fsinfo fd) + netEntry (s.netinfo fd) k = 0 := h.clean fd
    have hsend := h.sendable
    have hb := h.bytes
    intro msg hmsg
    cases k with
    | read | write =>
      intro q _ _
      cases msg <;> rfl
    | rx | tx =>
      simp only [doUpdateState, Kind.type] at hmsg
      split at hmsg
      · rcases mem_updateNetBytes hmsg with hmsg | ⟨counters, rfl⟩
        · exact hsend msg hmsg
        · have hmtc := toNat_eq_zero.mp (Nat.eq_zero_of_add_eq_zero_left hclean)
          intro q hq hne
          simp only [posted, netTotal, netEntry, Kind.type, if_true, Option.map_some,
            Option.mem_some_iff] at hq
          subst hq
          exact decide_eq_true (evt_of_mtc (by decide) hmtc fun h0 => hne (toNat_eq_zero.mpr h0))
      · exact hsend msg hmsg
    | opened | closed => simp [isBytes] at hb
  · have hbooks := @books_update_other k s cfg type ht fd size funcop pathname now
    exact sendable_of_keeps (Keeps.doUpdateState type fd size funcop pathname now)
      (by rw [hbooks]) h.sendable

theorem step_clears (h : Settled cfg k s) (hv : op.keepsVerbosity = true)
    (hu : ∀ type fd size funcop pathname now, op ≠ .update type fd size funcop pathname now)
    (hd : op ≠ .drain) : ∃ acts, Effect cfg k s (step cfg s op).1 (step cfg s op).2 acts ∧
      ∀ a ∈ acts, a.clears = true := by
  have of_records : ∀ {s' : State} {n : ℕ}, Records cfg k s s' n →
      ∃ acts, Effect cfg k s s' [] acts ∧ ∀ a ∈ acts, a.clears = true := by
    rintro s' n ⟨acts, he, -, -, hsets⟩
    refine ⟨acts, he, fun a ha => ?_⟩
    obtain ⟨f, rfl⟩ := hsets h.bytes a ha
    rfl
  cases op with
  | update type fd size funcop pathname now => exact absurd rfl (hu _ _ _ _ _ _)
  | doOpen fd path func now => exact of_records (doOpen_records fd path func now)
  | doClose fd func now => exact of_records (doClose_records fd func now)
  | addSock fd type family now => exact of_records (addSock_records fd type family now)
  | doSetConnection sd addr isLocal now =>
    exact of_records (doSetConnection_records sd addr isLocal now)
  | doDupSock oldfd newfd now => exact of_records (doDupSock_records oldfd newfd now)
  | drain => exact absurd rfl hd
  | doTotal type =>
    exact ⟨[], (doTotal_effect cfg s k type).2 h.unsummarized, by simp⟩
  | doTotalDuration type => exact ⟨[], doTotalDuration_effect cfg s k type, by simp⟩
  | reportFD fd now =>
    obtain ⟨sets, rem, sets', he, hsets, hsets', hrem, -⟩ :=
      reportFD_effect cfg s k fd now
    refine ⟨_, he, fun a ha => ?_⟩
    rcases mem_append.mp ha with ha | ha
    · rcases mem_append.mp ha with ha | ha
      · obtain ⟨f, rfl⟩ := hsets a ha
        rfl
      · rcases hrem with rfl | ⟨c, -, rfl⟩
        · exact absurd ha (by simp)
        · rw [mem_singleton.mp ha]
          rfl
    · obtain ⟨f, n, rfl, hn⟩ := hsets' a ha
      rw [hn h.bytes]
      rfl
  | setVerbosity v => simp [Op.keepsVerbosity] at hv

theorem updateActs_settled (h : Settled cfg k s)
    (hsize : type = k.type → (u64 size).toNat = size.toNat) :
    Along (Ledger.step cap) (Ledger.Settles cap) (k.books s) (k.updateActs cfg s type fd size) ∧
    ∀ p : Option ℤ → Bool, ((k.updateActs cfg s type fd size).map (Act.addedFor p)).sum =
        if type = k.type ∧ k.tracked s fd = true ∧ p (some fd) = true then size.toNat
        else 0 := by
  unfold updateActs
  rw [recorded_bytes h.bytes]
  by_cases ht : type = k.type ∧ k.tracked s fd = true
  · have hle : (u64 size).toNat ≤ cap := Nat.le_sub_one_of_lt (u64 size).toNat_lt
    simp only [if_pos ht, recordActs, h.posts, h.bytes, h.unsummarized, if_true]
    refine ⟨⟨hle, trivial⟩, fun p => ?_⟩
    simp [Act.addedFor, hsize ht.1, ht]
  · rw [if_neg ht]
    refine ⟨trivial, fun p => ?_⟩
    rw [if_neg fun hp => ht ⟨hp.1, hp.2.1⟩]
    rfl

theorem drainActs_settled (h : Settled cfg k s) :
    Along (Ledger.step cap) (Ledger.Settles cap) (k.books s) (k.drainActs cfg s) ∧
    ∀ p : Option ℤ → Bool, ((k.drainActs cfg s).map (Act.addedFor p)).sum = 0 := by
  unfold drainActs
  cases hq : s.queue with
  | nil => exact ⟨trivial, fun _ => rfl⟩
  | cons msg queue =>
    dsimp only
    cases hp : k.posted msg with
    | none => exact ⟨trivial, fun _ => rfl⟩
    | some q =>
      rw [if_pos Option.isSome_some]
      split
      · exact ⟨⟨trivial, trivial⟩, fun _ => rfl⟩
      · rename_i hs
        refine ⟨⟨?_, trivial⟩, fun _ => rfl⟩
        intro q' hq'
        have hbooks : (k.books s).queued = q :: queue.filterMap k.posted := by
          simp [books, hq, hp]
        rw [hbooks, head?_cons, Option.mem_some_iff] at hq'
        subst hq'
        by_contra hne
        have hsend : k.Sendable msg := h.sendable msg (by rw [hq]; exact .head _)
        exact hs (sends_of_sendable h.bytes h.unsummarized h.watched hsend hp hne)

def Moves (cfg : Config) (k : Kind) (s s' : State) (sent : List Sent)
    (added : (Option ℤ → Bool) → ℕ) : Prop :=
  ∃ acts, Effect cfg k s s' sent acts ∧
    Along (Ledger.step cap) (Ledger.Settles cap) (k.books s) acts ∧
    ∀ p, (acts.map (Ledger.Act.addedFor p)).sum = added p

theorem Moves.trans {s'' : State} {sent' : List Sent} {added added' : (Option ℤ → Bool) → ℕ}
    (h : Moves cfg k s s' sent added) (h' : Moves cfg k s' s'' sent' added') :
    Moves cfg k s s'' (sent ++ sent') (fun p => added p + added' p) := by
  obtain ⟨acts, he, hacts, hadded⟩ := h
  obtain ⟨acts', he', hacts', hadded'⟩ := h'
  refine ⟨acts ++ acts', he.trans he', ?_, fun p => ?_⟩
  · rw [along_append, ← he.books]
    exact ⟨hacts, hacts'⟩
  · rw [map_append, sum_append, hadded, hadded']

theorem Moves.conserved {added : (Option ℤ → Bool) → ℕ} (h : Moves cfg k s s' sent added)
    (hclean : Clean (k.books s)) :
    Clean (k.books s') ∧ ∃ out, k.values sent = reported cfg out ∧
      ∀ p, queuedFor p (k.books s') + amountFor p out = queuedFor p (k.books s) + added p := by
  obtain ⟨acts, he, hacts, hadded⟩ := h
  have hrun p := run_settles p hclean hacts
  rw [he.books]
  refine ⟨(hrun fun _ => true).1, _, he.values, fun p => ?_⟩
  rw [(hrun p).2, hadded]

/-- **One step**, not summarised: amounts are moved to the queue, and sent from it. -/
theorem step_moves (h : Settled cfg k s) (hv : op.keepsVerbosity = true)
    (hsized : k.sized op = true) : Moves cfg k s (step cfg s op).1 (step cfg s op).2
        (fun p => k.transferred (fun fd => p (some fd)) s op) ∧
      ∀ msg ∈ (step cfg s op).1.queue, k.Sendable msg := by
  have other : (∀ type fd size funcop pathname now,
      op ≠ .update type fd size funcop pathname now) → op ≠ .drain →
      Moves cfg k s (step cfg s op).1 (step cfg s op).2 (fun _ => 0) ∧
        ∀ msg ∈ (step cfg s op).1.queue, k.Sendable msg := by
    intro hu hd
    obtain ⟨acts, he, hclears⟩ := step_clears h hv hu hd
    have hrun p := run_clears p cap (k.books s) hclears
    obtain ⟨hacts, hqueued, -⟩ := hrun fun _ => true
    refine ⟨⟨acts, he, hacts, fun p => (hrun p).2.2⟩, ?_⟩
    refine sendable_of_keeps (step_keeps cfg s hv hd) ?_ h.sendable
    rw [he.books, hqueued]
  cases op with
  | update type fd size funcop pathname now =>
    obtain ⟨hacts, hadded⟩ := updateActs_settled h (size_of_sized hsized)
    exact ⟨⟨_, update_effect type fd size funcop pathname now, hacts, hadded⟩,
      update_sendable h type fd size funcop pathname now⟩
  | drain =>
    obtain ⟨hacts, hadded⟩ := drainActs_settled h
    refine ⟨⟨_, drain_effect cfg s k, hacts, hadded⟩, fun msg hmsg => ?_⟩
    have htail : msg ∈ s.queue.tail := (drain_state cfg s).2 ▸ hmsg
    exact h.sendable msg (mem_of_mem_tail htail)
  | _ => exact other (by simp) (by simp)

theorem step_settled (h : Settled cfg k s) (hv : op.keepsVerbosity = true)
    (hsized : k.sized op = true) : Settled cfg k (step cfg s op).1 := by
  obtain ⟨hmoves, hsend⟩ := step_moves h hv hsized
  refine ⟨h.bytes, h.enabled, h.watched, ?_, (hmoves.conserved h.clean).1, hsend⟩
  rw [step_summary cfg s hv]
  exact h.unsummarized

/-- **A run**, not summarised. -/
theorem process_moves (h : Settled cfg k s) (hfixed : ∀ op ∈ ops, op.keepsVerbosity = true)
    (hsized : ∀ op ∈ ops, k.sized op = true) :
    Moves cfg k s (process cfg s ops).1 (process cfg s ops).2
      (fun p => k.transferredIn cfg (fun fd => p (some fd)) s ops) := by
  induction ops generalizing s with
  | nil => exact ⟨[], Effect.of_eq rfl rfl, trivial, fun _ => rfl⟩
  | cons op ops ih =>
    obtain ⟨hv, hfixed⟩ := forall_mem_cons.mp hfixed
    obtain ⟨hs, hsized⟩ := forall_mem_cons.mp hsized
    exact (step_moves h hv hs).1.trans (ih (step_settled h hv hs) hfixed hsized)

theorem settled_init (hk : k.isBytes = true) (hmtc : cfg.mtcEnabled = true)
    (hwatch : k.watched cfg = true) (hsum : k.summarized (setVerbosity v) = false) :
    Settled cfg k (init v) := by
  refine ⟨hk, hmtc, hwatch, hsum, fun fd => ?_, by simp [init]⟩
  cases k <;> rfl

def emittedFor (k : Kind) (p : Option ℤ → Bool) (sent : List Sent) : ℤ :=
  (((k.values sent).filter fun v => p v.1).map Prod.snd).sum

theorem emittedFor_eq (p : Option ℤ → Bool) {out : Emitted ℤ}
    (hmtc : cfg.mtcEnabled = true) (h : k.values sent = reported cfg out)
    (hout : amountFor p out < 2 ^ 63) : k.emittedFor p sent = amountFor p out := by
  unfold emittedFor
  rw [h]
  unfold reported
  rw [if_pos hmtc, filter_map, map_map]
  exact sum_signed hout

/-- **Bytes that are not summarised**: what is not reported is in the queue, for any
choice of descriptors. -/
theorem unsummarized_conserved (hmtc : cfg.mtcEnabled = true) (hk : k.isBytes = true)
    (hwatch : k.watched cfg = true) (hsum : k.summarized (setVerbosity v) = false)
    (hfixed : ∀ op ∈ ops, op.keepsVerbosity = true) (hsized : ∀ op ∈ ops, k.sized op = true)
    (p : Option ℤ → Bool)
    (hfew : k.transferredIn cfg (fun fd => p (some fd)) (init v) ops < 2 ^ 63) :
    Clean (k.books (process cfg (init v) ops).1) ∧
    k.emittedFor p (process cfg (init v) ops).2 +
        queuedFor p (k.books (process cfg (init v) ops).1) =
      k.transferredIn cfg (fun fd => p (some fd)) (init v) ops := by
  have hinit := settled_init hk hmtc hwatch hsum
  obtain ⟨hclean, out, hvalues, h⟩ :=
    (process_moves hinit hfixed hsized).conserved hinit.clean
  refine ⟨hclean, ?_⟩
  have hp := h p
  have hempty : queuedFor p (k.books (init v)) = 0 := rfl
  rw [hempty, Nat.zero_add] at hp
  rw [emittedFor_eq p hmtc hvalues (by omega)]
  omega

/-! ## Both ways together -/

def pending (k : Kind) (s : State) : ℕ :=
  if k.summarized s.summary then k.held s
  else ∑ fd ∈ Finset.range fsEntries, (k.books s).entry fd +
    queuedFor (fun _ => true) (k.books s)

def pendingOn (k : Kind) (s : State) (fd : ℤ) : ℕ :=
  (k.books s).entry fd + queuedFor (fun f => f = some fd) (k.books s)

def emittedOn (k : Kind) (sent : List Sent) (fd : ℤ) : ℤ :=
  k.emittedFor (fun f => f = some fd) sent

theorem emittedFor_all (k : Kind) (sent : List Sent) :
    k.emittedFor (fun _ => true) sent = k.emitted sent := by
  simp [emittedFor, emitted]

theorem transferred_le (k : Kind) (p : ℤ → Bool) (s : State) (op : Op) :
    k.transferred p s op ≤ k.transferred (fun _ => true) s op := by
  cases op with
  | update type fd size funcop pathname now =>
    simp only [transferred, and_true]
    split_ifs with hp h
    · exact le_rfl
    · exact absurd ⟨hp.1, hp.2.1⟩ h
    · exact Nat.zero_le _
    · exact le_rfl
  | _ => exact le_rfl

theorem transferredIn_le (cfg : Config) (k : Kind) (p : ℤ → Bool) (s : State) (ops : List Op) :
    k.transferredIn cfg p s ops ≤ k.transferredIn cfg (fun _ => true) s ops := by
  induction ops generalizing s with
  | nil => exact le_rfl
  | cons op ops ih => exact Nat.add_le_add (transferred_le k p s op) (ih _)

theorem watched_of_both (k : Kind) (hfs : cfg.watchFs = true) (hnet : cfg.watchNet = true) :
    k.watched cfg = true := by
  cases k <;> assumption

end Kind

open Kind in
/-- **Bytes are conserved** at a fixed verbosity: what is transferred is reported or
still pending, and this for each descriptor if the kind is not summarised. -/
theorem bytes_conserved {cfg : Config} (hmtc : cfg.mtcEnabled = true)
    (hfs : cfg.watchFs = true) (hnet : cfg.watchNet = true) {k : Kind}
    (hk : k.isBytes = true) {verbosity : ℕ} {ops : List Op}
    (hfixed : ∀ op ∈ ops, op.keepsVerbosity = true) (hsized : ∀ op ∈ ops, k.sized op = true)
    (hfew : k.transferredIn cfg (fun _ => true) (init verbosity) ops < 2 ^ 63) :
    let r := process cfg (init verbosity) ops
    k.emitted r.2 + k.pending r.1 = k.transferredIn cfg (fun _ => true) (init verbosity) ops ∧
    (k.summarized (setVerbosity verbosity) = false → ∀ fd, k.emittedOn r.2 fd + k.pendingOn r.1 fd =
        k.transferredIn cfg (fun f => f = fd) (init verbosity) ops) := by
  intro r
  have hsummary : r.1.summary = setVerbosity verbosity := process_summary hfixed
  cases hsum : k.summarized (setVerbosity verbosity) with
  | true =>
    refine ⟨?_, fun h => absurd h (by simp)⟩
    rw [pending, hsummary, if_pos hsum]
    exact summarized_conserved hmtc hk hsum hfixed hsized hfew
  | false =>
    have hconserved := unsummarized_conserved hmtc hk (k.watched_of_both hfs hnet) hsum
      hfixed hsized
    constructor
    · obtain ⟨hclean, h⟩ := hconserved (fun _ => true) hfew
      have hentries : ∑ fd ∈ Finset.range fsEntries, (k.books r.1).entry fd = 0 :=
        Finset.sum_eq_zero fun fd _ => hclean fd
      rw [pending, hsummary, if_neg (by simp [hsum]), hentries, Nat.zero_add, ← emittedFor_all]
      exact h
    · intro _ fd
      obtain ⟨hclean, h⟩ := hconserved (fun f => f = some fd) <| by
        exact lt_of_le_of_lt (transferredIn_le cfg k _ _ ops) hfew
      simp only [Option.some.injEq] at h
      rw [pendingOn, hclean fd, Nat.zero_add]
      exact h

def readOp (fd size : ℤ) : Op := .update .fsRead fd size (some "read") none 1

def reads : List Op :=
  [.doOpen 3 "/a" "open" 1, readOp 3 10, readOp 4 7, .drain, .drain, .doClose 3 "close" 2,
    readOp 3 5, .doTotal .totRead, .reportFD 4 3]

theorem bytes_conserved_reads :
    let r := process allOn (init 9) reads
    Kind.read.emitted r.2 + Kind.read.pending r.1 =
      Kind.read.transferredIn allOn (fun _ => true) (init 9) reads ∧
    (Kind.read.summarized (setVerbosity 9) = false → ∀ fd,
      Kind.read.emittedOn r.2 fd + Kind.read.pendingOn r.1 fd =
        Kind.read.transferredIn allOn (fun f => f = fd) (init 9) reads) :=
  bytes_conserved rfl rfl rfl rfl (by decide) (by decide) (by decide)

/-- Two reads of `2 ^ 62` bytes, reported in one total, arrive as a negative value. -/
theorem bytes_conserved_negative :
    let ops := [readOp 3 (2 ^ 62), readOp 3 (2 ^ 62), .doTotal .totRead]
    let r := process allOn (init 4) ops
    Kind.read.emitted r.2 = -2 ^ 63 ∧ Kind.read.pending r.1 = 0 ∧
      Kind.read.transferredIn allOn (fun _ => true) (init 4) ops = 2 ^ 63 := by
  decide

/-! ## Changes of the verbosity

While a kind is summarised the entries of the descriptors grow, and a total that is
flushed leaves them as they are. After a change to a verbosity at which the kind is
not summarised, the first update of a descriptor posts its whole entry.
-/

open Kind in
/-- **No byte is reported twice**, whatever the changes of the verbosity, in every
run in which what is reported for a descriptor is at most what its process-wide
counter holds. -/
theorem bytes_reported_once {cfg : Config} {k : Kind} (hk : k.isBytes = true)
    {verbosity : ℕ} {ops : List Op} (hsized : ∀ op ∈ ops, k.sized op = true)
    (hcovers : Along (step cfg) (k.Covers cfg) (init verbosity) ops) :
    k.emitted (process cfg (init verbosity) ops).2 ≤
      k.transferredIn cfg (fun _ => true) (init verbosity) ops := by
  have h := process_le hcovers
  rw [held_init, recordedIn_bytes hk hsized] at h
  omega

/-- Reported for the descriptor first, and in a total later. -/
theorem bytes_reported_once_to_summary :
    let ops := [readOp 3 10, .drain, .setVerbosity 4, readOp 3 5, .doTotal .totRead]
    Kind.read.emitted (process allOn (init 9) ops).2 ≤
      Kind.read.transferredIn allOn (fun _ => true) (init 9) ops :=
  bytes_reported_once rfl (by decide) (by decide)

/-- Reported in a total first, and for the descriptor again. -/
theorem bytes_reported_once_from_summary :
    let ops :=
      [readOp 3 10, .drain, .doTotal .totRead, .setVerbosity 9, readOp 3 5, .drain]
    Kind.read.emitted (process allOn (init 4) ops).2 = 25 ∧
      Kind.read.transferredIn allOn (fun _ => true) (init 4) ops = 15 := by
  decide

end AppView.Metrics

import AppView.Metrics.Averages
import AppView.Metrics.Durations

/-!
# Events of bytes

An event of `fs.read`, `fs.write`, `net.rx` or `net.tx` is a `DELTA`. Its value is the event copy
of the entry's counter, which is copied into the message and never reset in the entry: an event
has all bytes so far. **`delta_events`**: the values add up to the bytes transferred only if all
operations but the last have transferred nothing.
-/

namespace AppView.Metrics

open AppView.Framework List

variable {cfg : Config} {s : State} {fd : ℤ} {n : ℕ}

def Kind.eventValues (k : Kind) (fd : ℤ) (sent : List Sent) : List ℤ :=
  (sent.filter fun e => !e.toMtc && e.name = k.metric && e.type = .delta && e.fd = some fd).map
    Sent.value

theorem Kind.eventValues_append (k : Kind) (fd : ℤ) (sent sent' : List Sent) :
    k.eventValues fd (sent ++ sent') = k.eventValues fd sent ++ k.eventValues fd sent' := by
  simp [eventValues]

def Owes (cfg : Config) (k : Kind) (fd : ℤ) (msg : Msg) (v : ℤ) : Prop :=
  ∀ t, (k.eventValues fd (handleMsg cfg t msg).2).sum = v

def Kind.entryEvt (k : Kind) (s : State) (fd : ℤ) : UInt64 :=
  match k with
  | read => ((s.fsinfo fd).ctr .readBytes).evt
  | write => ((s.fsinfo fd).ctr .writeBytes).evt
  | rx => ((s.netinfo fd).ctr .rxBytes).evt
  | tx => ((s.netinfo fd).ctr .txBytes).evt
  | opened | closed => 0

def Kind.Ready (k : Kind) (cfg : Config) (s : State) (fd : ℤ) : Prop :=
  match k with
  | read | write => checkFSEntry fd = true ∧ cfg.srcFs = true
  | rx | tx => hasNetEntry s fd = true ∧ cfg.srcNet = true
  | opened | closed => False

/-! ## One message -/

theorem sum_cmdSendMetric {e : Sent} (k : Kind) (events : List Sent) :
    k.eventValues fd (events ++ cmdSendMetric cfg e) = k.eventValues fd events := by
  unfold cmdSendMetric
  split_ifs <;> simp [Kind.eventValues]

variable {k : Kind}

theorem sum_cmdSendEvent {e : Sent} (hname : e.name = k.metric) (htype : e.type = .delta)
    (hfd : e.fd = some fd) : (k.eventValues fd (cmdSendEvent e)).sum = e.value := by
  simp [Kind.eventValues, cmdSendEvent, hname, htype, hfd]

variable (summary : Summary) (ctrs : MetricCounters)

theorem owes_fs {num c : FsCtr} {g : Ctr} (fs : FsInfo) (source : ControlType) (op : String) :
    (k.eventValues fs.fd (doFSReadWrite cfg summary ctrs k.metric num c g fs source op).sent).sum =
        longLong (fs.ctr c).evt := by
  unfold doFSReadWrite
  dsimp only
  generalize hevents : (if (fs.ctr c).evt ≠ 0 then _ else []) = events
  have hsum : (k.eventValues fs.fd events).sum = longLong (fs.ctr c).evt := by
    rw [← hevents]
    split_ifs with h
    · exact sum_cmdSendEvent rfl rfl rfl
    · rw [not_not.1 h]
      rfl
  split_ifs
  · exact hsum
  · exact hsum
  · rw [sum_cmdSendMetric]
    exact hsum

theorem owes_rx (net : NetInfo) (source : ControlType) :
    (Kind.rx.eventValues net.fd (doNetRX cfg summary ctrs net source).sent).sum =
      longLong (net.ctr .rxBytes).evt := by
  unfold doNetRX
  dsimp only
  split_ifs with h
  · rw [h]
    rfl
  · exact sum_cmdSendEvent rfl rfl rfl
  · exact sum_cmdSendEvent rfl rfl rfl
  · rw [sendNetBytes, sum_cmdSendMetric]
    exact sum_cmdSendEvent rfl rfl rfl

theorem owes_tx (net : NetInfo) (source : ControlType) :
    (Kind.tx.eventValues net.fd (doNetTX cfg summary ctrs net source).sent).sum =
      longLong (net.ctr .txBytes).evt := by
  unfold doNetTX
  dsimp only
  split_ifs with h
  · rw [h]
    rfl
  · exact sum_cmdSendEvent rfl rfl rfl
  · exact sum_cmdSendEvent rfl rfl rfl
  · rw [sendNetBytes, sum_cmdSendMetric]
    exact sum_cmdSendEvent rfl rfl rfl

/-! ## One update -/

theorem updateFs_posts (h : cfg.srcFs = true) (type : MetricT) (adds : List (FsCtr × UInt64))
    (globals : List (Ctr × UInt64)) (funcop pathname : Option String) :
    ∃ fs : FsInfo, (updateFs cfg s fd type adds globals funcop pathname).queue =
        s.queue ++ [.fs fs] ∧ fs.fd = fd ∧ fs.dataType = type ∧
      fs.ctr = adds.foldl (fun c a => addTo c a.1 a.2) (s.fsinfo fd).ctr := by
  have hpost : ∀ (t : State) (fs : FsInfo), ∃ fs' : FsInfo,
      (postFSState cfg t fd type (some fs) funcop pathname).2.queue = t.queue ++ [.fs fs'] ∧
        fs'.fd = fd ∧ fs'.dataType = type ∧ fs'.ctr = fs.ctr := by
    intro t fs
    simp only [postFSState, h, Bool.or_true, Bool.true_or, if_true]
    exact ⟨_, rfl, rfl, rfl, rfl⟩
  set t := (s.fsCtr fd fun c => adds.foldl (fun c a => addTo c a.1 a.2) c).globals fun c =>
    globals.foldl (fun c a => addTo c a.1 a.2) c with ht
  obtain ⟨fs, hqueue, hfd, hdata, hctr⟩ := hpost t (t.fsinfo fd)
  refine ⟨fs, ?_, hfd, hdata, hctr.trans (by simp [ht, State.fsCtr, State.setFs, State.globals])⟩
  unfold updateFs
  dsimp only
  split_ifs <;> exact hqueue

theorem updateNetBytes_posts (h : cfg.srcNet = true) (type : MetricT) (num c : NetCtr)
    (global : SockSummaryBucket → Ctr) (size : ℤ) :
    ∃ net : NetInfo, (updateNetBytes cfg s fd type num c global size).queue =
        s.queue ++ [.net net] ∧ net.fd = fd ∧ net.dataType = type ∧
      net.ctr = addTo (addTo (s.netinfo fd).ctr num 1) c (u64 size) := by
  have hpost : ∀ (t : State) (net : NetInfo), ∃ net' : NetInfo,
      (postNetState cfg t fd type net).2.queue = t.queue ++ [.net net'] ∧
        net'.fd = fd ∧ net'.dataType = type ∧ net'.ctr = net.ctr := by
    intro t net
    simp only [postNetState, h, Bool.or_true, Bool.true_or, if_true]
    exact ⟨_, rfl, rfl, rfl, rfl⟩
  set t := s.netCtr fd fun ctr => addTo (addTo ctr num 1) c (u64 size) with ht
  obtain ⟨net, hqueue, hfd, hdata, hctr⟩ := hpost (t.globals fun ctrs =>
    addTo ctrs (global (getNetRxTxBucket (t.netinfo fd))) (u64 size)) (t.netinfo fd)
  refine ⟨net, ?_, hfd, hdata, hctr.trans (by simp [ht, State.netCtr, State.setNet])⟩
  unfold updateNetBytes
  dsimp only
  split_ifs <;> exact hqueue

theorem updateNetBytes_entry (type : MetricT) (num c m : NetCtr)
    (global : SockSummaryBucket → Ctr) (size : ℤ) :
    let s' := updateNetBytes cfg s fd type num c global size
    ((s'.netinfo fd).ctr m).evt = (addTo (addTo (s.netinfo fd).ctr num 1) c (u64 size) m).evt ∧
      (s'.netinfo fd).active = (s.netinfo fd).active := by
  have hswap : ∀ e : NetCtr → CountersElement, (swapMtc (swapMtc e num) c m).evt = (e m).evt :=
    fun e => foldl_swapMtc_evt [(num, 0), (c, 0)] e m
  unfold updateNetBytes
  dsimp only
  rw [Timed.postNetState_state]
  split_ifs <;> simp [State.netCtr, State.setNet, State.globals, hswap]

/-- **One operation**: the entry counts its bytes, and a message owes all bytes so far. -/
theorem update_owes (h : k.Ready cfg s fd) {acc : ℕ} (hacc : (k.entryEvt s fd).toNat = acc)
    (hn : acc + n < 2 ^ 63) (funcop pathname : Option String) (now : UInt64) :
    let s' := doUpdateState cfg s k.type fd n funcop pathname now
    k.Ready cfg s' fd ∧ (k.entryEvt s' fd).toNat = acc + n ∧
      ∃ msg, s'.queue = s.queue ++ [msg] ∧ Owes cfg k fd msg (acc + n : ℕ) := by
  have hevt : ∀ e : CountersElement, e.evt.toNat = acc →
      (addToInterfaceCounts e (u64 n)).evt.toNat = acc + n ∧
        longLong (addToInterfaceCounts e (u64 n)).evt = (acc + n : ℕ) := by
    intro e he
    have hsum : (addToInterfaceCounts e (u64 n)).evt.toNat = acc + n := by
      rw [addToInterfaceCounts, atomicAddU64_toNat, he, u64_toNat (by omega) (by omega)]
      omega
    exact ⟨hsum, by rw [longLong, hsum, if_pos hn]⟩
  cases k with
  | opened | closed => exact h.elim
  | read | write =>
    obtain ⟨hvalue, hlong⟩ := hevt _ hacc
    simp only [Kind.type, doUpdateState, if_pos h.1]
    refine ⟨h, ?_, ?_⟩
    · rw [Kind.entryEvt, updateFs_evt, if_pos rfl]
      simpa using hvalue
    · obtain ⟨fs, hqueue, hfd, hdata, hctr⟩ := @updateFs_posts cfg s fd h.2 _ _ _ funcop pathname
      refine ⟨_, hqueue, fun t => ?_⟩
      rw [handleMsg, hdata, ← hfd]
      refine (owes_fs ..).trans ?_
      rw [hctr]
      simpa using hlong
  | rx | tx =>
    obtain ⟨hvalue, hlong⟩ := hevt _ hacc
    simp only [Kind.type, doUpdateState, if_pos h.1]
    refine ⟨⟨?_, h.2⟩, ?_, ?_⟩
    · have hactive := h.1
      rw [hasNetEntry] at hactive ⊢
      rwa [(updateNetBytes_entry _ _ _ .numRX _ _).2]
    · rw [Kind.entryEvt, (updateNetBytes_entry ..).1]
      simpa using hvalue
    · obtain ⟨net, hqueue, hfd, hdata, hctr⟩ := @updateNetBytes_posts cfg s fd h.2 ..
      refine ⟨_, hqueue, fun t => ?_⟩
      rw [handleMsg, hdata, ← hfd]
      first
      | refine (owes_rx ..).trans ?_
      | refine (owes_tx ..).trans ?_
      rw [hctr]
      simpa using hlong

/-! ## A run -/

def transferred : Op → Option ℕ
  | .update _ _ size .. => some size.toNat
  | _ => none

def Kind.Transfers (k : Kind) (fd : ℤ) (op : Op) : Prop :=
  op = .drain ∨ ∃ (n : ℕ) (funcop pathname : Option String) (now : UInt64),
    op = .update k.type fd n funcop pathname now

def totals : ℕ → List ℕ → List ℕ
  | _, [] => []
  | acc, n :: ns => (acc + n) :: totals (acc + n) ns

theorem le_sum_totals {ns : List ℕ} (acc : ℕ) (h : ns ≠ []) :
    acc + ns.sum ≤ (totals acc ns).sum := by
  cases ns with
  | nil => exact absurd rfl h
  | cons n ns =>
    rw [totals, sum_cons, sum_cons]
    rcases eq_or_ne ns [] with rfl | hns
    · simp
    · have := le_sum_totals (acc + n) hns
      omega

theorem sum_totals_eq_iff (ns : List ℕ) :
    (totals 0 ns).sum = ns.sum ↔ ∀ n ∈ ns.dropLast, n = 0 := by
  induction ns with
  | nil => simp [totals]
  | cons n ns ih =>
    rw [totals, sum_cons, sum_cons, Nat.zero_add, Nat.add_left_cancel_iff]
    rcases eq_or_ne ns [] with rfl | hns
    · simp [totals]
    · have hle := le_sum_totals n hns
      rw [dropLast_cons_of_ne_nil hns, forall_mem_cons]
      constructor
      · intro h
        obtain rfl : n = 0 := by omega
        exact ⟨rfl, ih.1 h⟩
      · rintro ⟨rfl, h⟩
        exact ih.2 h

theorem run_owes {ops : List Op} (hops : ∀ op ∈ ops, k.Transfers fd op) {acc : ℕ} {vs : List ℤ}
    (h : k.Ready cfg s fd) (hacc : (k.entryEvt s fd).toNat = acc)
    (hqueue : Forall₂ (Owes cfg k fd) s.queue vs)
    (hsum : acc + (ops.filterMap transferred).sum < 2 ^ 63) :
    ∃ ws, Forall₂ (Owes cfg k fd) (process cfg s ops).1.queue ws ∧
      (k.eventValues fd (process cfg s ops).2).sum + ws.sum =
        vs.sum + ((totals acc (ops.filterMap transferred)).sum : ℕ) := by
  induction ops generalizing s acc vs with
  | nil => exact ⟨vs, hqueue, by simp [process, Kind.eventValues, totals]⟩
  | cons op ops ih =>
    obtain ⟨hop, hrest⟩ := forall_mem_cons.1 hops
    rw [Timed.process_cons, Kind.eventValues_append, sum_append]
    rcases hop with rfl | ⟨n, funcop, pathname, now, rfl⟩
    · rw [filterMap_cons_none rfl] at hsum ⊢
      simp only [step, drain]
      cases hq : s.queue with
      | nil =>
        obtain ⟨ws, hws, heq⟩ := ih hrest h hacc hqueue hsum
        exact ⟨ws, hws, by simpa [Kind.eventValues] using heq⟩
      | cons msg queue =>
        rw [hq] at hqueue
        cases hqueue with
        | @cons _ v _ vs howes hqueue =>
          have hstate := Kind.handleMsg_state cfg { s with queue := queue } msg
          obtain ⟨ws, hws, heq⟩ := @ih (handleMsg cfg { s with queue := queue } msg).1 hrest acc vs
            (by rw [hstate]; exact h) (by rw [hstate]; exact hacc) (by rw [hstate]; exact hqueue)
            hsum
          refine ⟨ws, hws, ?_⟩
          rw [howes, sum_cons, add_assoc, heq, add_assoc]
    · rw [filterMap_cons_some (by rfl), sum_cons] at hsum
      rw [filterMap_cons_some (by rfl)]
      obtain ⟨hready, hentry, msg, hposted, howes⟩ :=
        @update_owes cfg s fd n k h acc hacc (by omega) funcop pathname now
      obtain ⟨ws, hws, heq⟩ := @ih _ hrest (acc + n) (vs ++ [((acc + n : ℕ) : ℤ)]) hready hentry
        (by rw [hposted]; exact rel_append hqueue (.cons howes .nil)) (by omega)
      refine ⟨ws, hws, ?_⟩
      rw [step, totals, sum_cons, Kind.eventValues, filter_nil, map_nil, sum_nil, zero_add, heq,
        sum_append, sum_singleton, Int.toNat_natCast, Int.natCast_add (acc + n), add_assoc]

/-- **The sum of the events**: after a sequence of operations of one kind on a descriptor whose
entry has counted nothing, and with all messages handled, the values of the events add up to
the bytes transferred exactly if every operation but the last has transferred nothing. -/
theorem delta_events {k : Kind} {ops : List Op} (hops : ∀ op ∈ ops, k.Transfers fd op)
    (h : k.Ready cfg s fd) (hfresh : k.entryEvt s fd = 0) (hstart : s.queue = [])
    (hdrained : (process cfg s ops).1.queue = [])
    (hsum : (ops.filterMap transferred).sum < 2 ^ 63) :
    (k.eventValues fd (process cfg s ops).2).sum = ((ops.filterMap transferred).sum : ℕ) ↔
      ∀ n ∈ (ops.filterMap transferred).dropLast, n = 0 := by
  obtain ⟨ws, hws, heq⟩ := @run_owes cfg s fd k ops hops 0 [] h (by rw [hfresh]; rfl)
    (by rw [hstart]; exact .nil) (by omega)
  rw [hdrained] at hws
  cases hws
  rw [← sum_totals_eq_iff]
  simp only [sum_nil, add_zero, zero_add] at heq
  rw [heq]
  exact Int.natCast_inj

def readTen : Op := .update .fsRead 3 10 none none 0

/-- One read of ten bytes gives one event of ten. -/
theorem delta_events_once :
    (Kind.read.eventValues 3 (process allOn (init 9) [readTen, .drain]).2).sum = (10 : ℕ) :=
  (@delta_events allOn (init 9) 3 .read [readTen, .drain]
    (forall_mem_cons.2 ⟨.inr ⟨10, none, none, 0, rfl⟩, forall_mem_singleton.2 (.inl rfl)⟩)
    ⟨rfl, rfl⟩ rfl rfl rfl (by decide)).2 (by decide)

/-- Two reads of ten bytes give events of ten and of twenty. -/
theorem delta_events_repeat :
    let sent := (process allOn (init 9) [readTen, readTen, .drain, .drain]).2
    Kind.read.eventValues 3 sent = [10, 20] ∧
      ([readTen, readTen, .drain, .drain].filterMap transferred).sum = 20 := by
  decide

end AppView.Metrics

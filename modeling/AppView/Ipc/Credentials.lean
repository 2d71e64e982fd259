import Mathlib

/-!
# `newIPC`: credentials and namespaces around the message queues

The two queues of a request are created with the effective ids of the target's user namespace
and inside its IPC namespace. Every system call can fail on its own: `Kernel` says which ones
do. **`newIPC_restores_iff`**: after an error everything is as it was exactly if the call that
failed came before anything had to be undone, and the way back to the namespace was open.
-/

namespace AppView.Ipc

/-! ## The process and its kernel -/

inductive Side where
  | writer | reader
  deriving DecidableEq

inductive Site where
  | statSelf | nsOpen | nsSet | restoreOpen | restoreSet | unlinkSender
  | setGid (side : Side) | setUid (side : Side) | mqOpen (side : Side)
  | resetUid (side : Side) | resetGid (side : Side)
  deriving DecidableEq

abbrev Kernel := Site → Bool

structure QueueName where
  ns : ℕ
  side : Side
  pid : ℤ
  deriving DecidableEq

structure Process where
  euid : ℤ
  egid : ℤ
  /-- the IPC namespace of the calling thread -/
  ns : ℕ
  /-- that of the thread group's leader, if this is another thread -/
  leaderNs : Option ℕ
  /-- the queues that have a name -/
  linked : List QueueName
  deriving DecidableEq

structure Target where
  ns : Option ℕ
  uidMap : Option (List (ℤ × ℤ × ℤ))
  gidMap : Option (List (ℤ × ℤ × ℤ))
  nsPids : Option (List ℤ)

inductive NewIpcError where
  | nsIsSame | getProcUidMap | getProcGidMap | getProcStatus | nsSet
  | createMsgQWriter | createMsgQReader
  deriving DecidableEq

/-! ## Namespaces -/

def Process.selfNs (p : Process) : ℕ := p.leaderNs.getD p.ns

def ipcNsIsSame (k : Kernel) (t : Target) (p : Process) : Option Bool :=
  if k .statSelf = false then none else t.ns.map fun n => p.selfNs = n

def ipcNsTranslate (id : ℤ) : List (ℤ × ℤ × ℤ) → Option ℤ
  | [] => none
  | (insideNs, outsideNs, length) :: rest =>
    if id ≥ insideNs ∧ id < insideNs + length then some (outsideNs + id)
    else ipcNsTranslate id rest

def ipcNsSet (k : Kernel) (t : Target) (p : Process) : Option Process :=
  if k .nsOpen = false then none
  else if k .nsSet = false then none
  else t.ns.map fun n => { p with ns := n }

def ipcNsRestore (k : Kernel) (p : Process) : Process :=
  if k .restoreOpen = false then p
  else if k .restoreSet = false then p
  else { p with ns := p.selfNs }

/-! ## The queues -/

def nsnewMsgQ (k : Kernel) (side : Side) (pid nsUid nsGid restoreUid restoreGid : ℤ)
    (p : Process) : Option QueueName × Process :=
  if k (.setGid side) = false then (none, p)
  else
    let p := { p with egid := nsGid }
    if k (.setUid side) = false then (none, p)
    else
      let p := { p with euid := nsUid }
      let queue : QueueName := ⟨p.ns, side, pid⟩
      if k (.mqOpen side) = false ∨ queue ∈ p.linked then (none, p)
      else
        let p := { p with linked := queue :: p.linked }
        if k (.resetUid side) = false then (none, p)
        else
          let p := { p with euid := restoreUid }
          if k (.resetGid side) = false then (none, p)
          else (some queue, { p with egid := restoreGid })

def destroySender (k : Kernel) (queue : QueueName) (p : Process) : Process :=
  if k .unlinkSender = false then p
  else { p with linked := p.linked.erase { queue with ns := p.ns } }

def newQueues (k : Kernel) (ipcSame : Bool) (pid nsUid nsGid restoreUid restoreGid : ℤ)
    (p : Process) : Except NewIpcError (QueueName × QueueName) × Process :=
  let restore := fun p => if ipcSame then p else ipcNsRestore k p
  match nsnewMsgQ k .writer pid nsUid nsGid restoreUid restoreGid p with
  | (none, p) => (.error .createMsgQWriter, restore p)
  | (some sender, p) =>
    match nsnewMsgQ k .reader pid nsUid nsGid restoreUid restoreGid p with
    | (none, p) => (.error .createMsgQReader, restore (destroySender k sender p))
    | (some receiver, p) => (.ok (sender, receiver), p)

def newIPC (k : Kernel) (t : Target) (p : Process) :
    Except NewIpcError (QueueName × QueueName) × Process :=
  let restoreGid := p.egid
  let restoreUid := p.euid
  match ipcNsIsSame k t p with
  | none => (.error .nsIsSame, p)
  | some ipcSame =>
    match t.uidMap.bind (ipcNsTranslate restoreUid) with
    | none => (.error .getProcUidMap, p)
    | some nsUid =>
      match t.gidMap.bind (ipcNsTranslate restoreGid) with
      | none => (.error .getProcGidMap, p)
      | some nsGid =>
        match t.nsPids.bind List.getLast? with
        | none => (.error .getProcStatus, p)
        | some ipcPid =>
          if ipcSame then newQueues k ipcSame ipcPid nsUid nsGid restoreUid restoreGid p
          else
            match ipcNsSet k t p with
            | none => (.error .nsSet, p)
            | some p => newQueues k ipcSame ipcPid nsUid nsGid restoreUid restoreGid p

/-! ## Which call fails, and what it leaves -/

inductive Step where
  | setGid | setUid | mqOpen | resetUid | resetGid
  deriving DecidableEq

def failing (k : Kernel) (side : Side) (pid : ℤ) (p : Process) : Option Step :=
  if k (.setGid side) = false then some .setGid
  else if k (.setUid side) = false then some .setUid
  else if k (.mqOpen side) = false ∨ ⟨p.ns, side, pid⟩ ∈ p.linked then some .mqOpen
  else if k (.resetUid side) = false then some .resetUid
  else if k (.resetGid side) = false then some .resetGid
  else none

def left (step : Step) (side : Side) (pid nsUid nsGid : ℤ) (p : Process) : Process :=
  match step with
  | .setGid => p
  | .setUid => { p with egid := nsGid }
  | .mqOpen => { p with egid := nsGid, euid := nsUid }
  | .resetUid =>
    { p with egid := nsGid, euid := nsUid, linked := ⟨p.ns, side, pid⟩ :: p.linked }
  | .resetGid => { p with egid := nsGid, linked := ⟨p.ns, side, pid⟩ :: p.linked }

/-- **The contract of `nsnewMsgQ`.** -/
theorem nsnewMsgQ_eq (k : Kernel) (side : Side) (pid nsUid nsGid : ℤ) (p : Process) :
    nsnewMsgQ k side pid nsUid nsGid p.euid p.egid p =
      match failing k side pid p with
      | some step => (none, left step side pid nsUid nsGid p)
      | none =>
        (some ⟨p.ns, side, pid⟩, { p with linked := ⟨p.ns, side, pid⟩ :: p.linked }) := by
  rw [nsnewMsgQ, failing]
  dsimp only
  split_ifs <;> rfl

/-! ## What is promised -/

structure Restored (p q : Process) : Prop where
  euid : q.euid = p.euid
  egid : q.egid = p.egid
  ns : q.ns = p.ns
  linked : ∀ queue ∈ q.linked, queue ∈ p.linked

/-- Nothing of the process `p` is different in `q`, its namespace apart. -/
abbrev Process.Like (q p : Process) : Prop :=
  q.euid = p.euid ∧ q.egid = p.egid ∧ ∀ queue ∈ q.linked, queue ∈ p.linked

def Harmless (step : Step) (nsUid nsGid : ℤ) (p : Process) : Prop :=
  match step with
  | .setGid => True
  | .setUid => nsGid = p.egid
  | .mqOpen => nsGid = p.egid ∧ nsUid = p.euid
  | .resetUid | .resetGid => False

variable {k : Kernel} {p : Process} {pid : ℤ} {step : Step}

theorem left_iff {side : Side} (h : failing k side pid p = some step) (nsUid nsGid : ℤ) :
    (left step side pid nsUid nsGid p).Like p ↔ Harmless step nsUid nsGid p := by
  have hfresh : step = .resetUid ∨ step = .resetGid →
      (⟨p.ns, side, pid⟩ : QueueName) ∉ p.linked := by
    intro hstep hmem
    rw [failing] at h
    split_ifs at h with _ _ hopen
    all_goals first
      | exact hopen (.inr hmem)
      | rw [← Option.some.inj h] at hstep
        rcases hstep with hstep | hstep <;> cases hstep
  cases step with
  | setGid => exact ⟨fun _ => trivial, fun _ => ⟨rfl, rfl, fun _ hq => hq⟩⟩
  | setUid => exact ⟨fun hl => hl.2.1, fun hgid => ⟨rfl, hgid, fun _ hq => hq⟩⟩
  | mqOpen =>
    exact ⟨fun hl => ⟨hl.2.1, hl.1⟩, fun hids => ⟨hids.2, hids.1, fun _ hq => hq⟩⟩
  | resetUid =>
    exact ⟨fun hl => hfresh (.inl rfl) (hl.2.2 _ List.mem_cons_self), fun hfalse => hfalse.elim⟩
  | resetGid =>
    exact ⟨fun hl => hfresh (.inr rfl) (hl.2.2 _ List.mem_cons_self), fun hfalse => hfalse.elim⟩

def Back (k : Kernel) (t : Target) (ipcSame : Bool) (p : Process) : Prop :=
  ipcSame = true ∨
    if k .restoreOpen = true ∧ k .restoreSet = true then p.leaderNs = some p.ns
    else t.ns = some p.ns

def withWriter (pid : ℤ) (p : Process) : Process :=
  { p with linked := ⟨p.ns, .writer, pid⟩ :: p.linked }

def QueuesUndone (k : Kernel) (pid nsUid nsGid : ℤ) (back : Prop) (p : Process) : Prop :=
  match failing k .writer pid p with
  | some step => Harmless step nsUid nsGid p ∧ back
  | none =>
    match failing k .reader pid (withWriter pid p) with
    | some step => Harmless step nsUid nsGid p ∧ k .unlinkSender = true ∧ back
    | none => True

def Undone (k : Kernel) (t : Target) (p : Process) : Prop :=
  match ipcNsIsSame k t p, t.uidMap.bind (ipcNsTranslate p.euid),
      t.gidMap.bind (ipcNsTranslate p.egid), t.nsPids.bind List.getLast? with
  | some ipcSame, some nsUid, some nsGid, some pid =>
    if ipcSame then QueuesUndone k pid nsUid nsGid (Back k t ipcSame p) p
    else
      match ipcNsSet k t p with
      | none => True
      | some p' => QueuesUndone k pid nsUid nsGid (Back k t ipcSame p) p'
  | _, _, _, _ => True

/-! ## The equivalence -/

def leave (k : Kernel) (ipcSame : Bool) (p : Process) : Process :=
  if ipcSame then p else ipcNsRestore k p

theorem leave_fields (k : Kernel) (ipcSame : Bool) (p : Process) :
    (leave k ipcSame p).euid = p.euid ∧ (leave k ipcSame p).egid = p.egid ∧
      (leave k ipcSame p).linked = p.linked := by
  rw [leave, ipcNsRestore]
  split_ifs <;> exact ⟨rfl, rfl, rfl⟩

theorem restored_leave_iff (k : Kernel) (ipcSame : Bool) (p q : Process) :
    Restored p (leave k ipcSame q) ↔ q.Like p ∧ (leave k ipcSame q).ns = p.ns := by
  obtain ⟨heuid, hegid, hlinked⟩ := leave_fields k ipcSame q
  constructor
  · rintro ⟨h1, h2, h3, h4⟩
    rw [heuid] at h1
    rw [hegid] at h2
    rw [hlinked] at h4
    exact ⟨⟨h1, h2, h4⟩, h3⟩
  · rintro ⟨⟨h1, h2, h4⟩, h3⟩
    refine ⟨heuid.trans h1, hegid.trans h2, h3, ?_⟩
    rw [hlinked]
    exact h4

theorem left_ns (step : Step) (side : Side) (pid nsUid nsGid : ℤ) (p : Process) :
    (left step side pid nsUid nsGid p).ns = p.ns ∧
      (left step side pid nsUid nsGid p).leaderNs = p.leaderNs := by
  cases step <;> exact ⟨rfl, rfl⟩

theorem destroySender_fields (k : Kernel) (queue : QueueName) (p : Process) :
    (destroySender k queue p).euid = p.euid ∧ (destroySender k queue p).egid = p.egid ∧
      (destroySender k queue p).ns = p.ns ∧ (destroySender k queue p).leaderNs = p.leaderNs := by
  rw [destroySender]
  split_ifs <;> exact ⟨rfl, rfl, rfl, rfl⟩

theorem left_reader_iff (hw : failing k .writer pid p = none)
    (h : failing k .reader pid (withWriter pid p) = some step) (nsUid nsGid : ℤ) :
    (destroySender k ⟨p.ns, .writer, pid⟩
      (left step .reader pid nsUid nsGid (withWriter pid p))).Like p ↔
      Harmless step nsUid nsGid p ∧ k .unlinkSender = true := by
  have hfresh : (⟨p.ns, .writer, pid⟩ : QueueName) ∉ p.linked := by
    intro hmem
    rw [failing] at hw
    split_ifs at hw with _ _ hopen
    exact hopen (.inr hmem)
  have hleft := left_iff h nsUid nsGid
  have hns := (left_ns step .reader pid nsUid nsGid (withWriter pid p)).1
  set q := left step .reader pid nsUid nsGid (withWriter pid p) with hq
  obtain ⟨heuid, hegid, -, -⟩ := destroySender_fields k ⟨p.ns, .writer, pid⟩ q
  rw [Process.Like, heuid, hegid]
  by_cases hunlink : k .unlinkSender = false
  · -- the sender's queue stays
    rw [destroySender, if_pos hunlink]
    refine ⟨fun hl => absurd (hl.2.2 ⟨p.ns, .writer, pid⟩ ?_) hfresh, fun hr => ?_⟩
    · cases step <;> simp [hq, left, withWriter]
    · rw [hunlink] at hr
      cases hr.2
  · rw [destroySender, if_neg hunlink]
    have herase : (∀ queue ∈ q.linked.erase ⟨p.ns, .writer, pid⟩, queue ∈ p.linked) ↔
        ∀ queue ∈ q.linked, queue ∈ (withWriter pid p).linked := by
      cases step <;> simp [hq, left, withWriter]
    rw [hns]
    exact (and_congr_right' (and_congr_right' herase)).trans
      (hleft.trans (and_iff_left (Bool.not_eq_false _ ▸ hunlink)).symm)

theorem newQueues_iff (k : Kernel) (ipcSame : Bool) (pid nsUid nsGid : ℤ) (p : Process) (n : ℕ)
    {back : Prop} (hback : ∀ q : Process, q.ns = n → q.leaderNs = p.leaderNs →
      ((leave k ipcSame q).ns = p.ns ↔ back)) :
    (∀ e, (newQueues k ipcSame pid nsUid nsGid p.euid p.egid { p with ns := n }).1 = .error e →
      Restored p (newQueues k ipcSame pid nsUid nsGid p.euid p.egid { p with ns := n }).2) ↔
      QueuesUndone k pid nsUid nsGid back { p with ns := n } := by
  have hwriter := nsnewMsgQ_eq k .writer pid nsUid nsGid { p with ns := n }
  have hreader := nsnewMsgQ_eq k .reader pid nsUid nsGid (withWriter pid { p with ns := n })
  dsimp only [withWriter] at hwriter hreader
  rw [newQueues, QueuesUndone, hwriter]
  cases hw : failing k .writer pid { p with ns := n } with
  | some step =>
    obtain ⟨hns, hleader⟩ := left_ns step .writer pid nsUid nsGid { p with ns := n }
    have hleft := left_iff hw nsUid nsGid
    have hrestored := (restored_leave_iff k ipcSame p _).trans
      (and_congr hleft (hback _ hns hleader))
    exact ⟨fun h => hrestored.1 (h _ rfl), fun h _ _ => hrestored.2 h⟩
  | none =>
    dsimp only
    rw [hreader]
    cases hr : failing k .reader pid (withWriter pid { p with ns := n }) with
    | some step =>
      obtain ⟨hns, hleader⟩ := left_ns step .reader pid nsUid nsGid
        (withWriter pid { p with ns := n })
      obtain ⟨-, -, hns', hleader'⟩ := destroySender_fields k ⟨n, .writer, pid⟩
        (left step .reader pid nsUid nsGid (withWriter pid { p with ns := n }))
      rw [withWriter] at hr
      rw [hr]
      have hleft := left_reader_iff hw hr nsUid nsGid
      have hrestored := (restored_leave_iff k ipcSame p _).trans
        (and_congr hleft (hback _ (hns'.trans hns) (hleader'.trans hleader)))
      rw [and_assoc] at hrestored
      exact ⟨fun h => hrestored.1 (h _ rfl), fun h _ _ => hrestored.2 h⟩
    | none =>
      rw [withWriter] at hr
      rw [hr]
      exact ⟨fun _ => trivial, fun _ e he => by cases he⟩

theorem leave_ns_switched {t : Target} {n : ℕ} (ht : t.ns = some n) (hn : p.selfNs ≠ n)
    (q : Process) (hq : q.ns = n) (hleader : q.leaderNs = p.leaderNs) :
    (leave k false q).ns = p.ns ↔ Back k t false p := by
  rw [leave, Back, ipcNsRestore, if_neg Bool.false_ne_true, ht]
  by_cases hopen : k .restoreOpen = true
  · by_cases hset : k .restoreSet = true
    · rw [if_neg (by rw [hopen]; decide), if_neg (by rw [hset]; decide), if_pos ⟨hopen, hset⟩]
      rw [Process.selfNs, hleader, hq]
      cases hl : p.leaderNs with
      | none =>
        -- the leader itself has switched
        rw [Process.selfNs, hl] at hn
        exact ⟨fun h => absurd h.symm hn, fun h => by rcases h with h | h <;> cases h⟩
      | some l =>
        simp
    · rw [if_neg (by rw [hopen]; decide), if_pos (Bool.eq_false_iff.2 hset),
        if_neg fun h => hset h.2, hq]
      simp
  · rw [if_pos (Bool.eq_false_iff.2 hopen), if_neg fun h => hopen h.1, hq]
    simp

/-- **Credentials and namespace after an error.** For every outcome of the calls, every target
and every process. -/
theorem newIPC_restores_iff (k : Kernel) (t : Target) (p : Process) :
    (∀ e, (newIPC k t p).1 = .error e → Restored p (newIPC k t p).2) ↔ Undone k t p := by
  have hsame : ∀ e : NewIpcError, ∀ e',
      (Except.error e : Except NewIpcError (QueueName × QueueName)) = .error e' → Restored p p :=
    fun _ _ _ => ⟨rfl, rfl, rfl, fun _ hq => hq⟩
  rw [newIPC, Undone]
  cases hns : ipcNsIsSame k t p with
  | none => exact ⟨fun _ => trivial, fun _ => hsame _⟩
  | some ipcSame =>
  cases t.uidMap.bind (ipcNsTranslate p.euid) with
  | none => exact ⟨fun _ => trivial, fun _ => hsame _⟩
  | some nsUid =>
  cases t.gidMap.bind (ipcNsTranslate p.egid) with
  | none => exact ⟨fun _ => trivial, fun _ => hsame _⟩
  | some nsGid =>
  cases t.nsPids.bind List.getLast? with
  | none => exact ⟨fun _ => trivial, fun _ => hsame _⟩
  | some pid =>
    dsimp only
    cases ipcSame with
    | true =>
      rw [if_pos rfl, if_pos rfl]
      exact newQueues_iff k true pid nsUid nsGid p p.ns fun q hq _ =>
        ⟨fun _ => .inl rfl, fun _ => hq⟩
    | false =>
      rw [if_neg Bool.false_ne_true, if_neg Bool.false_ne_true]
      cases hset : ipcNsSet k t p with
      | none => exact ⟨fun _ => trivial, fun _ => hsame _⟩
      | some p' =>
        rw [ipcNsSet] at hset
        split_ifs at hset
        obtain ⟨n, ht, rfl⟩ := Option.map_eq_some_iff.1 hset
        have hn : p.selfNs ≠ n := by
          rw [ipcNsIsSame, ht] at hns
          split_ifs at hns
          exact of_decide_eq_false (Option.some.inj hns)
        exact newQueues_iff k false pid nsUid nsGid p n (leave_ns_switched ht hn)

def onlyFails (site : Site) : Kernel := fun s => s ≠ site

def superuser (leaderNs : Option ℕ) : Process := ⟨0, 0, 1, leaderNs, []⟩

def container (ns : ℕ) (base : ℤ) : Target :=
  ⟨some ns, some [(0, base, 65536)], some [(0, base, 65536)], some [4321, 7]⟩

/-- The queue cannot be created: the ids stay those of the container. From the leader's thread:
the namespace stays that of the container. The id cannot be set back: the queue stays too. -/
theorem newIPC_restores_iff_container :
    newIPC (onlyFails (.mqOpen .writer)) (container 1 100000) (superuser (some 1)) =
        (.error .createMsgQWriter, ⟨100000, 100000, 1, some 1, []⟩) ∧
      newIPC (onlyFails (.mqOpen .writer)) (container 2 0) (superuser none) =
        (.error .createMsgQWriter, ⟨0, 0, 2, none, []⟩) ∧
      newIPC (onlyFails (.resetUid .reader)) (container 1 100000) (superuser (some 1)) =
        (.error .createMsgQReader, ⟨100000, 100000, 1, some 1, [⟨1, .reader, 7⟩]⟩) := by
  decide

/-! ## Ids in the namespace and outside -/

def extentContains (id : ℤ) (e : ℤ × ℤ × ℤ) : Bool := decide (id ≥ e.1 ∧ id < e.1 + e.2.2)

/-- The id outside: `outside + (id - inside)` in the extent that contains it. -/
def idOutside (id : ℤ) (map : List (ℤ × ℤ × ℤ)) : Option ℤ :=
  (map.find? (extentContains id)).map fun e => e.2.1 + (id - e.1)

theorem ipcNsTranslate_eq (id : ℤ) (map : List (ℤ × ℤ × ℤ)) :
    ipcNsTranslate id map = (map.find? (extentContains id)).map fun e => e.2.1 + id := by
  induction map with
  | nil => rfl
  | cons e map ih =>
    rw [ipcNsTranslate, List.find?_cons, extentContains]
    by_cases h : id ≥ e.1 ∧ id < e.1 + e.2.2
    · simp [h]
    · rw [if_neg h, decide_eq_false h, ih]

/-- **Right exactly where the extent begins at zero**: the code adds the id, not its distance
from the beginning of the extent. Where no extent contains the id it is an error. -/
theorem idTranslation_iff (id : ℤ) (map : List (ℤ × ℤ × ℤ)) :
    ipcNsTranslate id map = idOutside id map ↔ ∀ e ∈ map.find? (extentContains id), e.1 = 0 := by
  rw [ipcNsTranslate_eq, idOutside]
  cases map.find? (extentContains id) with
  | none => simp
  | some e =>
    simp only [Option.map_some, Option.some.injEq, Option.mem_some_iff, forall_eq']
    omega

/-- Ids from 1000 on are those from 100000 on outside. -/
theorem idTranslation_shifted : ipcNsTranslate 1000 [(1000, 100000, 10)] = some 101000 ∧
      idOutside 1000 [(1000, 100000, 10)] = some 100000 := by
  decide

end AppView.Ipc

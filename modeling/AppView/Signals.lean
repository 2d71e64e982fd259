import AppView.Framework.Runs

/-!
# Signals of an application under the library

The library takes `SIGUSR2` for its timer and, with the snapshot feature, four more signals for
its crash handler.
-/

namespace AppView.Signals

open Framework Function Option

/-! ## libc and the kernel -/

structure Action (H : Type) where
  handler : H
  flags : BitVec 32
  mask : BitVec 64
  deriving DecidableEq

def Action.map {H H' : Type} (f : H → H') (a : Action H) : Action H' :=
  ⟨f a.handler, a.flags, a.mask⟩

def sigill : ℤ := 4
def sigbus : ℤ := 7
def sigfpe : ℤ := 8
def sigkill : ℤ := 9
def sigsegv : ℤ := 11
def sigusr2 : ℤ := 12
def sigstop : ℤ := 19

def saSiginfo : BitVec 32 := 0x4#32
def saRestart : BitVec 32 := 0x10000000#32

inductive Result (H : Type) where
  | error
  | handler (old : H)
  | action (old : Option (Action H))
  | fault
  deriving DecidableEq

def Result.map {H H' : Type} (f : H → H') : Result H → Result H'
  | .error => .error
  | .handler old => .handler (f old)
  | .action old => .action (old.map (Action.map f))
  | .fault => .fault

/-- `sigaction` of libc and the kernel, as far as they differ between systems: which signals
there are, which of them cannot be set, and what flags and mask an action has when it is given
back. The last two fields are what the manual pages say of them. -/
structure Libc where
  valid : ℤ → Bool
  fixed : ℤ → Bool
  installed : BitVec 32 × BitVec 64 → BitVec 32 × BitVec 64
  catchable : ∀ n ∈ [sigill, sigbus, sigfpe, sigsegv, sigusr2], valid n = true ∧ fixed n = false
  restart : ∀ mask, (installed (saRestart, mask)).1 ≠ 0

section Kernel

variable {H : Type} (libc : Libc)

abbrev Table (H : Type) : Type := ℤ → Action H

def Libc.keep (a : Action H) : Action H :=
  ⟨a.handler, (libc.installed (a.flags, a.mask)).1, (libc.installed (a.flags, a.mask)).2⟩

/-- The old action is given back as it was installed; a query changes nothing. -/
def kernelSigaction (t : Table H) (n : ℤ) (act : Option (Action H)) (wantOld : Bool) :
    Table H × Result H :=
  if !libc.valid n || (act.isSome && libc.fixed n) then (t, .error)
  else
    ((match act with
      | none => t
      | some a => update t n (libc.keep a)),
     .action (if wantOld then some (t n) else none))

def signalAction (n : ℤ) (h : H) : Action H := ⟨h, saRestart, 1#64 <<< (n - 1).toNat⟩

/-- Installs an action that restarts calls and blocks the signal itself. -/
def kernelSignal (t : Table H) (n : ℤ) (h : H) : Table H × Result H :=
  if !libc.valid n || libc.fixed n then (t, .error)
  else (update t n (libc.keep (signalAction n h)), .handler (t n).handler)

end Kernel

/-! ## The process -/

inductive Handler where
  | dfl
  | ign
  | fn (address : ℕ)
  deriving DecidableEq

inductive KernelHandler where
  | app (h : Handler)
  | snapshotSignalHandler
  | threadNow
  deriving DecidableEq

def zeroAction : Action Handler := ⟨.dfl, 0#32, 0#64⟩

def Action.lift (a : Action Handler) : Action KernelHandler := a.map .app

structure Saved where
  appSigSegvAction : Action KernelHandler := zeroAction.lift
  appSigBusAction : Action KernelHandler := zeroAction.lift
  appSigIllAction : Action KernelHandler := zeroAction.lift
  appSigFpeAction : Action KernelHandler := zeroAction.lift

/-- No result for a signal that the snapshot feature does not take. -/
def snapshotBackupAppSignalHandler (s : Saved) (sig : ℤ) (act : Action KernelHandler) :
    Option Saved :=
  if sig = sigsegv then some { s with appSigSegvAction := act }
  else if sig = sigbus then some { s with appSigBusAction := act }
  else if sig = sigill then some { s with appSigIllAction := act }
  else if sig = sigfpe then some { s with appSigFpeAction := act }
  else none

/-- Where there is no result, the caller is left with its zeroed action. -/
def snapshotRetrieveAppSignalHandler (s : Saved) (sig : ℤ) : Option (Action KernelHandler) :=
  if sig = sigsegv then some s.appSigSegvAction
  else if sig = sigbus then some s.appSigBusAction
  else if sig = sigill then some s.appSigIllAction
  else if sig = sigfpe then some s.appSigFpeAction
  else none

structure Lib where
  kernel : Table KernelHandler
  saved : Saved
  appAction : Action KernelHandler
  appviewHandlerActive : Bool

section Wrapped

variable (libc : Libc)

def realSignal (s : Lib) (n : ℤ) (h : KernelHandler) : Lib × Result KernelHandler :=
  let r := kernelSignal libc s.kernel n h
  ({ s with kernel := r.1 }, r.2)

def realSigaction (s : Lib) (n : ℤ) (act : Option (Action KernelHandler)) (wantOld : Bool) :
    Lib × Result KernelHandler :=
  let r := kernelSigaction libc s.kernel n act wantOld
  ({ s with kernel := r.1 }, r.2)

/-- The wrapper of `signal`: for signals the library keeps, only its own copy changes. -/
def signal (enabled : Bool) (s : Lib) (n : ℤ) (h : KernelHandler) : Lib × Result KernelHandler :=
  if n = sigusr2 then
    if s.appviewHandlerActive then
      ({ s with appAction := ⟨h, 0#32, 0#64⟩ }, .handler s.appAction.handler)
    else realSignal libc s n h
  else if enabled then
    let oldact := (snapshotRetrieveAppSignalHandler s.saved n).getD zeroAction.lift
    match snapshotBackupAppSignalHandler s.saved n ⟨h, 0#32, 0#64⟩ with
    | some saved => ({ s with saved := saved }, .handler oldact.handler)
    | none => realSignal libc s n h
  else realSignal libc s n h

/-- The wrapper of `sigaction`. A query writes through the pointer without looking at it. -/
def sigaction (enabled : Bool) (s : Lib) (n : ℤ) (act : Option (Action KernelHandler))
    (wantOld : Bool) : Lib × Result KernelHandler :=
  if n = sigusr2 then
    if s.appviewHandlerActive then
      match act with
      | none => (s, if wantOld then .action (some s.appAction) else .fault)
      | some a =>
        ({ s with appAction := a }, .action (if wantOld then some s.appAction else none))
    else realSigaction libc s n act wantOld
  else if enabled then
    let old := (snapshotRetrieveAppSignalHandler s.saved n).getD zeroAction.lift
    match act with
    | none => (s, if wantOld then .action (some old) else .fault)
    | some a =>
      match snapshotBackupAppSignalHandler s.saved n a with
      | some saved =>
        ({ s with saved := saved }, .action (if wantOld then some old else none))
      | none => realSigaction libc s n act wantOld
  else realSigaction libc s n act wantOld

def snapshotErrorsSignals : List ℤ := [sigsegv, sigbus, sigill, sigfpe]

/-- The crash handler is installed, and the action it replaces is kept. -/
def enableSnapshotSignal (s : Lib) (sig : ℤ) : Lib :=
  let r := kernelSigaction libc s.kernel sig
    (some ⟨.snapshotSignalHandler, saRestart ||| saSiginfo, 0#64⟩) true
  let oldact := match r.2 with
    | .action (some old) => old
    | _ => zeroAction.lift
  { s with
    kernel := r.1
    saved := (snapshotBackupAppSignalHandler s.saved sig oldact).getD s.saved }

/-- In a Go program no action is fetched here. -/
def enableSnapshot (enabled isGo : Bool) (t : Table Handler) : Lib :=
  let s : Lib := ⟨fun n => (t n).lift, {}, zeroAction.lift, false⟩
  if enabled && !isGo then snapshotErrorsSignals.foldl (enableSnapshotSignal libc) s else s

/-- The handler of the timer is installed; the action it replaces is not asked for. -/
def osThreadInit (s : Lib) : Lib :=
  { s with
    kernel := (kernelSigaction libc s.kernel sigusr2
      (some ⟨.threadNow, saSiginfo ||| saRestart, 0#64⟩) false).1
    appviewHandlerActive := true }

inductive Op where
  | signal (n : ℤ) (h : Handler)
  | sigaction (n : ℤ) (act : Option (Action Handler)) (wantOld : Bool)
  | threadInit

/-- A call in a process with the library. -/
def Lib.step (enabled : Bool) (s : Lib) : Op → Lib × Option (Result KernelHandler)
  | .signal n h =>
    let r := Signals.signal libc enabled s n (.app h)
    (r.1, some r.2)
  | .sigaction n act wantOld =>
    let r := Signals.sigaction libc enabled s n (act.map Action.lift) wantOld
    (r.1, some r.2)
  | .threadInit => (osThreadInit libc s, none)

/-- The same call without the library. -/
def alone (t : Table Handler) : Op → Table Handler × Option (Result Handler)
  | .signal n h =>
    let r := kernelSignal libc t n h
    (r.1, some r.2)
  | .sigaction n act wantOld =>
    let r := kernelSigaction libc t n act wantOld
    (r.1, some r.2)
  | .threadInit => (t, none)

end Wrapped

/-! ## What the library knows -/

/-- The signals whose actions the library keeps for the application. -/
def owned (enabled active : Bool) (n : ℤ) : Prop :=
  if n = sigusr2 then active = true else enabled = true ∧ n ∈ snapshotErrorsSignals

instance (enabled active : Bool) (n : ℤ) : Decidable (owned enabled active n) :=
  inferInstanceAs (Decidable (ite ..))

inductive Known where
  | action
  | handler
  | nothing
  deriving DecidableEq

/-- How much of the kernel's answer a kept action is. -/
def known (own real : Action Handler) : Known :=
  if own = real then .action else if own.handler = real.handler then .handler else .nothing

structure Watch where
  table : Table Handler
  known : ℤ → Known
  active : Bool

def Watch.init (enabled isGo : Bool) (t : Table Handler) : Watch where
  table := t
  known n :=
    if enabled && isGo && snapshotErrorsSignals.contains n then Signals.known zeroAction (t n)
    else .action
  active := false

def Watch.step (libc : Libc) (enabled : Bool) (w : Watch) (op : Op) :
    Watch × Option (Result Handler) :=
  let r := alone libc w.table op
  let w' : Watch := { w with table := r.1 }
  (match op with
    | .signal n _ =>
      if owned enabled w.active n then
        { w' with known := update w.known n .handler }
      else w'
    | .sigaction n (some a) _ =>
      if owned enabled w.active n then
        { w' with known := update w.known n (if libc.keep a = a then .action else .handler) }
      else w'
    | .sigaction _ none _ => w'
    | .threadInit =>
      if w.active then w'
      else
        { w' with
          known := update w.known sigusr2 (Signals.known zeroAction (w.table sigusr2))
          active := true },
   r.2)

/-- What a call asks for is something the library knows. -/
def Answered (libc : Libc) (enabled : Bool) (w : Watch) : Op → Prop
  | .signal n _ => owned enabled w.active n → w.known n ≠ .nothing
  | .sigaction n act wantOld =>
    if owned enabled w.active n then
      (wantOld = true → w.known n = .action) ∧ (act = none → wantOld = true)
    else if enabled = true ∧ n ≠ sigusr2 ∧ act = none then
      wantOld = true ∧ libc.valid n = true ∧ w.table n = zeroAction
    else True
  | .threadInit => True

instance (libc : Libc) (enabled : Bool) (w : Watch) : DecidablePred (Answered libc enabled w)
  | .signal .. => inferInstanceAs (Decidable (_ → _))
  | .sigaction .. => inferInstanceAs (Decidable (ite ..))
  | .threadInit => inferInstanceAs (Decidable True)

/-! ## The kernel, case by case -/

section KernelSteps

variable {H : Type} {t : Table H} {n : ℤ} {libc : Libc}

theorem kernelSignal_ok (hv : libc.valid n = true) (hf : libc.fixed n = false) (h : H) :
    kernelSignal libc t n h =
      (update t n (libc.keep (signalAction n h)), .handler (t n).handler) := by
  simp [kernelSignal, hv, hf]

theorem kernelSignal_error (hn : ¬ (libc.valid n = true ∧ libc.fixed n = false)) (h : H) :
    kernelSignal libc t n h = (t, .error) := by
  rw [kernelSignal, if_pos]
  rcases hv : libc.valid n <;> rcases hf : libc.fixed n <;> simp_all

theorem kernelSigaction_none (wantOld : Bool) : kernelSigaction libc t n none wantOld =
      (t, if libc.valid n = true then .action (if wantOld then some (t n) else none)
        else .error) := by
  rcases hv : libc.valid n <;> simp [kernelSigaction, hv]

theorem kernelSigaction_ok (hv : libc.valid n = true) (hf : libc.fixed n = false) (a : Action H)
    (wantOld : Bool) : kernelSigaction libc t n (some a) wantOld =
      (update t n (libc.keep a), .action (if wantOld then some (t n) else none)) := by
  simp [kernelSigaction, hv, hf]

theorem kernelSigaction_error (hn : ¬ (libc.valid n = true ∧ libc.fixed n = false)) (a : Action H)
    (wantOld : Bool) : kernelSigaction libc t n (some a) wantOld = (t, .error) := by
  rw [kernelSigaction, if_pos]
  rcases hv : libc.valid n <;> rcases hf : libc.fixed n <;> simp_all

end KernelSteps

/-! ## The tables of the library -/

theorem Action.lift_injective : Injective Action.lift := by
  rintro ⟨h, f, m⟩ ⟨h', f', m'⟩ heq
  simpa [Action.lift, Action.map] using heq

variable {n : ℤ} {libc : Libc}

theorem mem_snapshotErrorsSignals : n ∈ snapshotErrorsSignals ↔
    n = sigsegv ∨ n = sigbus ∨ n = sigill ∨ n = sigfpe := by
  simp [snapshotErrorsSignals]

variable {a : Action KernelHandler} {own real : Action Handler}

theorem backup_eq_none {s : Saved} :
    snapshotBackupAppSignalHandler s n a = none ↔ n ∉ snapshotErrorsSignals := by
  rw [mem_snapshotErrorsSignals]
  unfold snapshotBackupAppSignalHandler
  split_ifs <;> simp_all

theorem exists_backup {s : Lib} (h : n ∈ snapshotErrorsSignals) (a : Action KernelHandler) :
    ∃ saved, snapshotBackupAppSignalHandler s.saved n a = some saved :=
  ne_none_iff_exists'.1 fun hnone => backup_eq_none.1 hnone h

theorem retrieve_eq_none {s : Saved} :
    snapshotRetrieveAppSignalHandler s n = none ↔ n ∉ snapshotErrorsSignals := by
  rw [mem_snapshotErrorsSignals]
  unfold snapshotRetrieveAppSignalHandler
  split_ifs <;> simp_all

theorem retrieve_backup {s s' : Saved}
    (h : snapshotBackupAppSignalHandler s n a = some s') (m : ℤ) :
    snapshotRetrieveAppSignalHandler s' m =
      if m = n then some a else snapshotRetrieveAppSignalHandler s m := by
  unfold snapshotBackupAppSignalHandler at h
  unfold snapshotRetrieveAppSignalHandler
  split_ifs at h with hsig hsig hsig hsig <;>
    (obtain rfl := some.inj h; subst hsig; split_ifs <;> simp_all)

theorem catchable (h : n ∈ snapshotErrorsSignals) : libc.valid n = true ∧ libc.fixed n = false := by
  refine libc.catchable n ?_
  rw [mem_snapshotErrorsSignals] at h
  obtain rfl | rfl | rfl | rfl := h <;> decide

theorem retrieve_empty (h : n ∈ snapshotErrorsSignals) :
    snapshotRetrieveAppSignalHandler {} n = some zeroAction.lift := by
  rw [mem_snapshotErrorsSignals] at h
  unfold snapshotRetrieveAppSignalHandler
  split_ifs <;> simp_all

theorem foldl_enableSnapshotSignal {sigs : List ℤ} (hnodup : sigs.Nodup)
    (hsigs : sigs ⊆ snapshotErrorsSignals) (s : Lib) :
    let s' := sigs.foldl (enableSnapshotSignal libc) s
    (∀ n, snapshotRetrieveAppSignalHandler s'.saved n =
        if n ∈ sigs then some (s.kernel n) else snapshotRetrieveAppSignalHandler s.saved n) ∧
      (∀ n, n ∉ sigs → s'.kernel n = s.kernel n) ∧
      s'.appviewHandlerActive = s.appviewHandlerActive ∧ s'.appAction = s.appAction := by
  induction sigs generalizing s with
  | nil => exact ⟨fun n => by simp, fun n _ => rfl, rfl, rfl⟩
  | cons sig sigs ih =>
    obtain ⟨hsig, hrest⟩ := List.nodup_cons.1 hnodup
    have hmem : sig ∈ snapshotErrorsSignals := hsigs (by simp)
    have hkernel : ∀ n, n ≠ sig → (enableSnapshotSignal libc s sig).kernel n = s.kernel n := by
      intro n hn
      rw [enableSnapshotSignal, kernelSigaction_ok (catchable hmem).1 (catchable hmem).2]
      exact update_of_ne hn ..
    have hsaved : ∀ n, snapshotRetrieveAppSignalHandler (enableSnapshotSignal libc s sig).saved n =
        if n = sig then some (s.kernel sig) else snapshotRetrieveAppSignalHandler s.saved n := by
      intro n
      obtain ⟨saved, hbackup⟩ := exists_backup (s := s) hmem (s.kernel sig)
      rw [enableSnapshotSignal, kernelSigaction_ok (catchable hmem).1 (catchable hmem).2]
      simp only [if_true, hbackup, getD_some]
      exact retrieve_backup hbackup n
    obtain ⟨ihsaved, ihkernel, ihactive, ihapp⟩ :=
      ih hrest (fun n hn => hsigs (List.mem_cons_of_mem _ hn)) (enableSnapshotSignal libc s sig)
    refine ⟨fun n => ?_, fun n hn => ?_, ihactive, ihapp⟩
    · rw [List.foldl_cons, ihsaved, hsaved]
      by_cases hn : n = sig
      · subst hn
        simp [hsig]
      · simp [hn, hkernel n hn]
    · rw [List.mem_cons, not_or] at hn
      rw [List.foldl_cons, ihkernel n hn.2, hkernel n hn.1]

/-- The action of a signal as the wrappers give it back. -/
def Lib.view (enabled : Bool) (s : Lib) (n : ℤ) : Action KernelHandler :=
  if owned enabled s.appviewHandlerActive n then
    if n = sigusr2 then s.appAction
    else (snapshotRetrieveAppSignalHandler s.saved n).getD zeroAction.lift
  else s.kernel n

def Lib.save (s : Lib) (n : ℤ) (a : Action KernelHandler) : Lib :=
  if n = sigusr2 then { s with appAction := a }
  else { s with saved := (snapshotBackupAppSignalHandler s.saved n a).getD s.saved }

open Lib (view save)

section Tables

variable {enabled : Bool} {s : Lib} {n : ℤ} {active : Bool}

theorem owned_usr2 : owned enabled active sigusr2 ↔ active = true := by
  simp [owned]

theorem owned_of_ne (hn : n ≠ sigusr2) :
    owned enabled active n ↔ enabled = true ∧ n ∈ snapshotErrorsSignals := by
  simp [owned, hn]

theorem ne_usr2 (h : n ∈ snapshotErrorsSignals) : n ≠ sigusr2 := by
  rintro rfl
  exact absurd h (by decide)

theorem owned_inactive : owned enabled false n ↔ enabled = true ∧ n ∈ snapshotErrorsSignals := by
  by_cases hn : n = sigusr2
  · subst hn
    exact iff_of_false (by simp [owned_usr2]) fun h => ne_usr2 h.2 rfl
  · exact owned_of_ne hn

theorem owned_catchable (libc : Libc) (h : owned enabled active n) :
    libc.valid n = true ∧ libc.fixed n = false := by
  by_cases hn : n = sigusr2
  · subst hn
    exact libc.catchable _ (by decide)
  · exact catchable ((owned_of_ne hn).1 h).2

@[simp] theorem active_save (a : Action KernelHandler) :
    (s.save n a).appviewHandlerActive = s.appviewHandlerActive := by
  unfold save
  split_ifs <;> rfl

theorem appAction_save_of_inactive (h : owned enabled s.appviewHandlerActive n)
    (hs : s.appviewHandlerActive = false) (a : Action KernelHandler) :
    (s.save n a).appAction = s.appAction := by
  have hn : n ≠ sigusr2 := by
    rintro rfl
    rw [owned_usr2, hs] at h
    cases h
  rw [save, if_neg hn]

theorem save_of_backup {a : Action KernelHandler} {saved : Saved} (hn : n ≠ sigusr2)
    (h : snapshotBackupAppSignalHandler s.saved n a = some saved) :
    s.save n a = { s with saved := saved } := by
  rw [save, if_neg hn, h, getD_some]

theorem view_usr2 (h : s.appviewHandlerActive = true) : s.view enabled sigusr2 = s.appAction := by
  rw [view, if_pos (owned_usr2.2 h), if_pos rfl]

theorem view_owned (h : owned enabled s.appviewHandlerActive n) (hn : n ≠ sigusr2) :
    s.view enabled n = (snapshotRetrieveAppSignalHandler s.saved n).getD zeroAction.lift := by
  rw [view, if_pos h, if_neg hn]

theorem view_free (h : ¬ owned enabled s.appviewHandlerActive n) :
    s.view enabled n = s.kernel n := by
  rw [view, if_neg h]

theorem view_save (h : owned enabled s.appviewHandlerActive n) (a : Action KernelHandler) :
    (s.save n a).view enabled = update (s.view enabled) n a := by
  funext m
  by_cases hn : n = sigusr2
  · subst hn
    by_cases hm : m = sigusr2
    · subst hm
      rw [update_self, view_usr2 (by simpa using owned_usr2.1 h), save, if_pos rfl]
    · simp [view, save, hm]
  · obtain ⟨saved, hsaved⟩ := exists_backup (s := s) ((owned_of_ne hn).1 h).2 a
    rw [save_of_backup hn hsaved]
    by_cases hm : m = n
    · subst hm
      have hview := view_owned (s := { s with saved := saved }) h hn
      rw [update_self, hview, retrieve_backup hsaved, if_pos rfl, getD_some]
    · simp [view, retrieve_backup hsaved, hm]

theorem view_kernel (h : ¬ owned enabled s.appviewHandlerActive n) (a : Action KernelHandler) :
    view enabled { s with kernel := update s.kernel n a } =
      update (s.view enabled) n a := by
  funext m
  by_cases hm : m = n
  · subst hm
    have hview := view_free (s := { s with kernel := update s.kernel m a }) h
    rw [update_self, hview]
    exact update_self ..
  · simp [view, hm]

theorem signal_owned (h : owned enabled s.appviewHandlerActive n) (k : KernelHandler) :
    signal libc enabled s n k =
      (s.save n ⟨k, 0#32, 0#64⟩, .handler (s.view enabled n).handler) := by
  by_cases hn : n = sigusr2
  · subst hn
    have hactive := owned_usr2.1 h
    rw [signal, if_pos rfl, if_pos hactive, view_usr2 hactive, save, if_pos rfl]
  · obtain ⟨henabled, hmem⟩ := (owned_of_ne hn).1 h
    obtain ⟨saved, hsaved⟩ := exists_backup (s := s) hmem ⟨k, 0#32, 0#64⟩
    rw [signal, if_neg hn, if_pos henabled, hsaved, save_of_backup hn hsaved, view_owned h hn]

theorem signal_free (h : ¬ owned enabled s.appviewHandlerActive n) (k : KernelHandler) :
    signal libc enabled s n k = realSignal libc s n k := by
  by_cases hn : n = sigusr2
  · subst hn
    rw [signal, if_pos rfl, if_neg (mt owned_usr2.2 h)]
  · rw [signal, if_neg hn]
    split_ifs with henabled
    · have hmem : n ∉ snapshotErrorsSignals := fun hmem => h ((owned_of_ne hn).2 ⟨henabled, hmem⟩)
      rw [backup_eq_none.2 hmem]
    · rfl

theorem sigaction_owned_none (h : owned enabled s.appviewHandlerActive n) (wantOld : Bool) :
    sigaction libc enabled s n none wantOld =
      (s, if wantOld then .action (some (s.view enabled n)) else .fault) := by
  by_cases hn : n = sigusr2
  · subst hn
    have hactive := owned_usr2.1 h
    rw [sigaction, if_pos rfl, if_pos hactive, view_usr2 hactive]
  · rw [sigaction, if_neg hn, if_pos ((owned_of_ne hn).1 h).1, view_owned h hn]

theorem sigaction_owned_some (h : owned enabled s.appviewHandlerActive n)
    (a : Action KernelHandler) (wantOld : Bool) : sigaction libc enabled s n (some a) wantOld =
      (s.save n a, .action (if wantOld then some (s.view enabled n) else none)) := by
  by_cases hn : n = sigusr2
  · subst hn
    have hactive := owned_usr2.1 h
    rw [sigaction, if_pos rfl, if_pos hactive, view_usr2 hactive, save, if_pos rfl]
  · obtain ⟨henabled, hmem⟩ := (owned_of_ne hn).1 h
    obtain ⟨saved, hsaved⟩ := exists_backup (s := s) hmem a
    rw [sigaction, if_neg hn, if_pos henabled, save_of_backup hn hsaved, view_owned h hn]
    rw [hsaved]

theorem sigaction_query (h : ¬ owned enabled s.appviewHandlerActive n)
    (henabled : enabled = true) (hn : n ≠ sigusr2) (wantOld : Bool) :
    sigaction libc enabled s n none wantOld =
      (s, if wantOld then .action (some zeroAction.lift) else .fault) := by
  have hmem : n ∉ snapshotErrorsSignals := fun hmem => h ((owned_of_ne hn).2 ⟨henabled, hmem⟩)
  rw [sigaction, if_neg hn, if_pos henabled, retrieve_eq_none.2 hmem, getD_none]

theorem sigaction_free (libc : Libc) (h : ¬ owned enabled s.appviewHandlerActive n)
    (act : Option (Action KernelHandler))
    (hact : ¬ (enabled = true ∧ n ≠ sigusr2 ∧ act = none)) (wantOld : Bool) :
    sigaction libc enabled s n act wantOld = realSigaction libc s n act wantOld := by
  by_cases hn : n = sigusr2
  · subst hn
    unfold sigaction
    rw [if_pos rfl, if_neg (mt owned_usr2.2 h)]
  · unfold sigaction
    rw [if_neg hn]
    by_cases henabled : enabled = true
    · rw [if_pos henabled]
      cases act with
      | none => exact absurd ⟨henabled, hn, rfl⟩ hact
      | some a =>
        have hmem : n ∉ snapshotErrorsSignals :=
          fun hmem => h ((owned_of_ne hn).2 ⟨henabled, hmem⟩)
        dsimp only
        rw [backup_eq_none.2 hmem]
    · rw [if_neg henabled]

end Tables

/-! ## The two processes in step -/

theorem known_eq_action : known own real = .action ↔ own = real := by
  unfold known
  split_ifs <;> simp_all

theorem known_ne_nothing : known own real ≠ .nothing ↔ own.handler = real.handler := by
  unfold known
  split_ifs <;> simp_all

theorem known_self (a : Action Handler) : known a a = .action := known_eq_action.2 rfl

theorem known_signal (n : ℤ) (h : Handler) :
    known ⟨h, 0#32, 0#64⟩ (libc.keep (signalAction n h)) = .handler := by
  have hne : (⟨h, 0#32, 0#64⟩ : Action Handler) ≠ libc.keep (signalAction n h) := by
    intro heq
    exact libc.restart _ (congrArg Action.flags heq).symm
  rw [known, if_neg hne]
  exact if_pos rfl

theorem known_keep (a : Action Handler) :
    known a (libc.keep a) = if libc.keep a = a then .action else .handler := by
  unfold known
  simp only [eq_comm (a := a) (b := libc.keep a)]
  split_ifs with h h'
  · rfl
  · rfl
  · exact absurd rfl h'

structure Agrees (enabled : Bool) (s : Lib) (w : Watch) : Prop where
  active : s.appviewHandlerActive = w.active
  unset : w.active = false → s.appAction = zeroAction.lift
  own : ∀ n, ∃ own : Action Handler, s.view enabled n = own.lift ∧
    w.known n = known own (w.table n) ∧ (¬ owned enabled w.active n → own = w.table n)

def InStep (libc : Libc) (enabled : Bool) (s : Lib) (w : Watch) (op : Op) : Prop :=
  ∃ r : Option (Result Handler),
    Agrees enabled (s.step libc enabled op).1 (w.step libc enabled op).1 ∧
      (s.step libc enabled op).2 = r.map (Result.map .app) ∧
      (r = (w.step libc enabled op).2 ↔ Answered libc enabled w op)

namespace Agrees

variable {enabled : Bool} {s s' : Lib} {w : Watch} {n : ℤ}

section

variable (h : Agrees enabled s w)

include h

theorem free (hn : ¬ owned enabled w.active n) :
    s.kernel n = (w.table n).lift ∧ w.known n = .action := by
  obtain ⟨own, hview, hknown, hown⟩ := h.own n
  obtain rfl := hown hn
  rw [← h.active] at hn
  rw [view_free hn] at hview
  exact ⟨hview, hknown.trans (known_self _)⟩

theorem update {own real : Action Handler}
    (hactive : s'.appviewHandlerActive = s.appviewHandlerActive)
    (happ : w.active = false → s'.appAction = s.appAction)
    (hview : s'.view enabled = update (s.view enabled) n own.lift)
    (hfree : ¬ owned enabled w.active n → own = real) :
    Agrees enabled s' { w with
      table := update w.table n real
      known := update w.known n (known own real) } where
  active := hactive.trans h.active
  unset hw := (happ hw).trans (h.unset hw)
  own m := by
    by_cases hm : m = n
    · subst hm
      exact ⟨own, by simp [hview], by simp, by simpa using hfree⟩
    · simpa [hview, hm] using h.own m

theorem update_free (hn : ¬ owned enabled w.active n)
    (real : Action Handler) :
    Agrees enabled { s with kernel := Function.update s.kernel n real.lift }
      { w with table := Function.update w.table n real } := by
  have hfree : ¬ owned enabled s.appviewHandlerActive n := by rwa [h.active]
  have hknown : Function.update w.known n (known real real) = w.known := by
    rw [known_self, ← (h.free hn).2, update_eq_self]
  have hupdate : Agrees enabled { s with kernel := Function.update s.kernel n real.lift } { w with
      table := Function.update w.table n real
      known := Function.update w.known n (known real real) } :=
    h.update rfl (fun _ => rfl) (view_kernel hfree real.lift) (fun _ => rfl)
  rwa [hknown] at hupdate

theorem signal_step (n : ℤ) (k : Handler) :
    InStep libc enabled s w (.signal n k) := by
  by_cases hn : owned enabled w.active n
  · have hs : owned enabled s.appviewHandlerActive n := by rwa [h.active]
    obtain ⟨hv, hf⟩ := owned_catchable libc hn
    obtain ⟨own, hview, hknown, -⟩ := h.own n
    have hstep : s.step libc enabled (.signal n k) = (s.save n (Action.lift ⟨k, 0#32, 0#64⟩),
        some (.handler (.app own.handler))) := by
      simp only [Lib.step, signal_owned hs, hview]
      rfl
    have hwatch : w.step libc enabled (.signal n k) = ({ w with
            table := Function.update w.table n (libc.keep (signalAction n k))
            known := Function.update w.known n .handler },
          some (.handler (w.table n).handler)) := by
      simp [Watch.step, alone, kernelSignal_ok hv hf, if_pos hn]
    refine ⟨some (.handler own.handler), ?_⟩
    rw [hstep, hwatch, ← known_signal n k]
    refine ⟨h.update (active_save _)
      (fun hw => appAction_save_of_inactive hs (h.active.trans hw) _) (view_save hs _)
      (absurd hn), rfl, ?_⟩
    simp [Answered, hn, hknown, known_ne_nothing]
  · have hs : ¬ owned enabled s.appviewHandlerActive n := by rwa [h.active]
    refine ⟨(w.step libc enabled (.signal n k)).2, ?_⟩
    have hanswered : Answered libc enabled w (.signal n k) := fun howned => absurd howned hn
    simp only [Lib.step, signal_free hs, realSignal, Watch.step, alone, if_neg hn,
      hanswered, and_true]
    by_cases hok : libc.valid n = true ∧ libc.fixed n = false
    · rw [kernelSignal_ok hok.1 hok.2, kernelSignal_ok hok.1 hok.2, (h.free hn).1]
      exact ⟨h.update_free hn (libc.keep (signalAction n k)), rfl⟩
    · rw [kernelSignal_error hok, kernelSignal_error hok]
      exact ⟨h, rfl⟩

theorem query_step (n : ℤ) (wantOld : Bool) :
    InStep libc enabled s w (.sigaction n none wantOld) := by
  have hwatch : w.step libc enabled (.sigaction n none wantOld) = (w, some
      (if libc.valid n = true then .action (if wantOld then some (w.table n) else none)
        else .error)) := by
    simp [Watch.step, alone, kernelSigaction_none]
  by_cases hn : owned enabled w.active n
  · have hs : owned enabled s.appviewHandlerActive n := by rwa [h.active]
    obtain ⟨own, hview, hknown, -⟩ := h.own n
    refine ⟨some (if wantOld then .action (some own) else .fault), ?_⟩
    rw [hwatch, if_pos (owned_catchable libc hn).1]
    simp only [Lib.step, map_none, sigaction_owned_none hs, hview]
    refine ⟨h, ?_, ?_⟩
    · cases wantOld <;> rfl
    · cases wantOld <;> simp [Answered, hn, hknown, known_eq_action]
  · have hs : ¬ owned enabled s.appviewHandlerActive n := by rwa [h.active]
    by_cases hquery : enabled = true ∧ n ≠ sigusr2
    · have hanswered : Answered libc enabled w (.sigaction n none wantOld) ↔
          wantOld = true ∧ libc.valid n = true ∧ w.table n = zeroAction := by
        rw [Answered, if_neg hn, if_pos ⟨hquery.1, hquery.2, rfl⟩]
      refine ⟨some (if wantOld then .action (some zeroAction) else .fault), ?_⟩
      rw [hwatch, hanswered]
      simp only [Lib.step, map_none, sigaction_query hs hquery.1 hquery.2]
      refine ⟨h, ?_, ?_⟩
      · cases wantOld <;> rfl
      · cases wantOld <;> rcases hv : libc.valid n <;> simp [eq_comm]
    · have hanswered : Answered libc enabled w (.sigaction n none wantOld) := by
        rw [Answered, if_neg hn, if_neg fun hq => hquery ⟨hq.1, hq.2.1⟩]
        trivial
      have hreal := sigaction_free libc hs none (fun hq => hquery ⟨hq.1, hq.2.1⟩) wantOld
      refine ⟨(w.step libc enabled (.sigaction n none wantOld)).2, ?_⟩
      simp only [hwatch, Lib.step, map_none, hreal, realSigaction, kernelSigaction_none,
        (h.free hn).1, hanswered, and_true]
      refine ⟨h, ?_⟩
      cases wantOld <;> rcases hv : libc.valid n <;> rfl

theorem sigaction_step (n : ℤ) (a : Action Handler) (wantOld : Bool) :
    InStep libc enabled s w (.sigaction n (some a) wantOld) := by
  by_cases hn : owned enabled w.active n
  · have hs : owned enabled s.appviewHandlerActive n := by rwa [h.active]
    obtain ⟨hv, hf⟩ := owned_catchable libc hn
    obtain ⟨own, hview, hknown, -⟩ := h.own n
    have hwatch : w.step libc enabled (.sigaction n (some a) wantOld) = ({ w with
            table := Function.update w.table n (libc.keep a)
            known := Function.update w.known n (known a (libc.keep a)) },
          some (.action (if wantOld then some (w.table n) else none))) := by
      simp [Watch.step, alone, kernelSigaction_ok hv hf, if_pos hn, known_keep]
    refine ⟨some (.action (if wantOld then some own else none)), ?_⟩
    rw [hwatch]
    simp only [Lib.step, map_some, sigaction_owned_some hs, hview]
    refine ⟨h.update (active_save _)
      (fun hw => appAction_save_of_inactive hs (h.active.trans hw) _) (view_save hs _)
      (absurd hn), ?_, ?_⟩
    · cases wantOld <;> rfl
    · cases wantOld <;> simp [Answered, hn, hknown, known_eq_action]
  · have hs : ¬ owned enabled s.appviewHandlerActive n := by rwa [h.active]
    have hreal := sigaction_free libc hs (some a.lift) (by simp) wantOld
    have hanswered : Answered libc enabled w (.sigaction n (some a) wantOld) := by
      simp [Answered, hn]
    refine ⟨(w.step libc enabled (.sigaction n (some a) wantOld)).2, ?_⟩
    simp only [Lib.step, map_some, hreal, realSigaction, Watch.step, alone, if_neg hn,
      hanswered, and_true]
    by_cases hok : libc.valid n = true ∧ libc.fixed n = false
    · rw [kernelSigaction_ok hok.1 hok.2, kernelSigaction_ok hok.1 hok.2, (h.free hn).1]
      refine ⟨h.update_free hn (libc.keep a), ?_⟩
      cases wantOld <;> rfl
    · rw [kernelSigaction_error hok, kernelSigaction_error hok]
      exact ⟨h, rfl⟩

theorem threadInit_step :
    Agrees enabled (s.step libc enabled .threadInit).1 (w.step libc enabled .threadInit).1 := by
  have hv : libc.valid sigusr2 = true ∧ libc.fixed sigusr2 = false :=
    libc.catchable _ (by decide)
  have hview : ∀ m, m ≠ sigusr2 → (osThreadInit libc s).view enabled m = s.view enabled m := by
    intro m hm
    simp [view, osThreadInit, kernelSigaction_ok hv.1 hv.2, owned_of_ne hm, hm]
  have husr2 : (osThreadInit libc s).view enabled sigusr2 = s.appAction := view_usr2 rfl
  rcases hw : w.active with _ | _
  · -- the action of the application is not fetched
    have hwatch : (w.step libc enabled .threadInit).1 = { w with
        known := Function.update w.known sigusr2 (known zeroAction (w.table sigusr2))
        active := true } := by
      simp [Watch.step, alone, hw]
    rw [hwatch]
    refine ⟨rfl, (fun h0 => nomatch h0), fun m => ?_⟩
    by_cases hm : m = sigusr2
    · subst hm
      refine ⟨zeroAction, husr2.trans (h.unset hw), by simp, fun hfree => ?_⟩
      exact absurd (owned_usr2.2 rfl) hfree
    · obtain ⟨own, hown, hknown, hfree⟩ := h.own m
      refine ⟨own, (hview m hm).trans hown, by simpa [hm] using hknown, ?_⟩
      rw [owned_of_ne hm] at hfree ⊢
      exact hfree
  · have hwatch : (w.step libc enabled .threadInit).1 = w := by
      simp only [Watch.step, alone, hw, if_true]
      rw [← hw]
    rw [hwatch]
    refine ⟨hw.symm, fun h0 => absurd (hw.symm.trans h0) (by decide), fun m => ?_⟩
    by_cases hm : m = sigusr2
    · subst hm
      have hsame : (osThreadInit libc s).view enabled sigusr2 = s.view enabled sigusr2 := by
        rw [husr2, view_usr2 (h.active.trans hw)]
      exact hsame ▸ h.own sigusr2
    · exact (hview m hm) ▸ h.own m

theorem step (op : Op) : InStep libc enabled s w op := by
  cases op with
  | signal n k => exact h.signal_step n k
  | sigaction n act wantOld =>
    cases act with
    | none => exact h.query_step n wantOld
    | some a => exact h.sigaction_step n a wantOld
  | threadInit => exact ⟨none, h.threadInit_step, rfl, iff_of_true rfl trivial⟩

end

theorem init (libc : Libc) (enabled isGo : Bool) (t : Table Handler) :
    Agrees enabled (enableSnapshot libc enabled isGo t) (Watch.init enabled isGo t) := by
  have hfree : ∀ n, ¬ owned enabled false n → (Watch.init enabled isGo t).known n = .action := by
    intro n hn
    rw [owned_inactive] at hn
    simp_all [Watch.init]
  set start : Lib := ⟨fun n => (t n).lift, {}, zeroAction.lift, false⟩ with hstart
  rcases hfetch : enabled && !isGo with _ | _
  · -- the tables of the library are still all zero
    have hinit : enableSnapshot libc enabled isGo t = start := by
      simp [enableSnapshot, hfetch, hstart]
    rw [hinit]
    refine ⟨rfl, fun _ => rfl, fun n => ?_⟩
    by_cases hn : owned enabled false n
    · obtain ⟨henabled, hmem⟩ := owned_inactive.1 hn
      refine ⟨zeroAction, ?_, ?_, absurd hn⟩
      · rw [view_owned hn (ne_usr2 hmem), retrieve_empty hmem, getD_some]
      · simp_all [Watch.init]
    · refine ⟨t n, view_free hn, ?_, fun _ => rfl⟩
      rw [hfree n hn]
      exact (known_self _).symm
  · obtain ⟨hsaved, hkernel, hactive, happ⟩ := foldl_enableSnapshotSignal
      (by decide) (List.Subset.refl _) start
    have hinit : enableSnapshot libc enabled isGo t =
        snapshotErrorsSignals.foldl (enableSnapshotSignal libc) start := by
      simp [enableSnapshot, hfetch, hstart]
    rw [hinit]
    refine ⟨hactive, fun _ => happ, fun n => ⟨t n, ?_, ?_, fun _ => rfl⟩⟩
    · by_cases hn : owned enabled false n
      · have hmem := (owned_inactive.1 hn).2
        rw [view_owned (hactive ▸ hn) (ne_usr2 hmem), hsaved, if_pos hmem, getD_some]
      · have hn' : ¬ owned enabled (snapshotErrorsSignals.foldl (enableSnapshotSignal libc)
            start).appviewHandlerActive n := by
          rwa [hactive]
        refine (view_free hn').trans (hkernel n fun hmem => hn ?_)
        exact owned_inactive.2 ⟨(Bool.and_eq_true_iff.1 hfetch).1, hmem⟩
    · have hgo : isGo = false := by simpa using (Bool.and_eq_true_iff.1 hfetch).2
      simp [Watch.init, hgo, known_self]

end Agrees

/-! ## Whole runs -/

theorem Result.map_injective : Function.Injective (Result.map KernelHandler.app) := by
  have hlift : Injective (Action.map KernelHandler.app) := Action.lift_injective
  intro r r' h
  cases r <;> cases r' <;> simp only [Result.map] at h <;>
    simp_all [(Option.map_injective hlift).eq_iff]

theorem table_step (libc : Libc) (enabled : Bool) (w : Watch) (op : Op) :
    (w.step libc enabled op).1.table = (alone libc w.table op).1 := by
  cases op with
  | signal n k | threadInit => exact apply_ite Watch.table .. |>.trans (ite_self _)
  | sigaction n act wantOld =>
    cases act with
    | none => rfl
    | some a => exact apply_ite Watch.table .. |>.trans (ite_self _)

/-- **The library is seen exactly when more is asked than it knows.** Its own handlers are
never given to the application, and what the calls of a run give is what they give without
the library if and only if each of them is `Answered`. -/
theorem signal_interposition (libc : Libc) (enabled isGo : Bool) (t : Table Handler)
    (ops : List Op) :
    (∀ o ∈ (run (Lib.step libc enabled) (enableSnapshot libc enabled isGo t) ops).2,
        ∃ r : Option (Result Handler), o = r.map (Result.map .app)) ∧
      ((run (Lib.step libc enabled) (enableSnapshot libc enabled isGo t) ops).2 =
          (run (alone libc) t ops).2.map (Option.map (Result.map .app)) ↔
        Along (Watch.step libc enabled) (Answered libc enabled) (Watch.init enabled isGo t)
          ops) := by
  have hinit := Agrees.init libc enabled isGo t
  constructor
  · refine run_outputs (I := fun s => ∃ w, Agrees enabled s w) ?_ ?_ ⟨_, hinit⟩ ops
    · rintro s op ⟨w, h⟩
      obtain ⟨r, hkeep, -, -⟩ := h.step op
      exact ⟨_, hkeep⟩
    · rintro s op ⟨w, h⟩
      obtain ⟨r, -, hr, -⟩ := h.step op
      exact ⟨r, hr⟩
  · have halone : (run (alone libc) t ops).2 =
        (run (Watch.step libc enabled) (Watch.init enabled isGo t) ops).2 :=
      congrArg Prod.snd (run_map Watch.table (fun w op => by rw [table_step]; rfl)
        (Watch.init enabled isGo t) ops)
    rw [halone]
    refine run_outputs_iff (R := Agrees enabled) ?_ ?_ hinit ops
    · intro s w op h
      obtain ⟨r, hkeep, -, -⟩ := h.step op
      exact hkeep
    · intro s w op h
      obtain ⟨r, -, hr, hanswered⟩ := h.step op
      rw [hr, (map_injective Result.map_injective).eq_iff, hanswered]

/-- glibc on Linux: two signals are kept for threads, `SA_RESTORER` is in the flags of every
action that was set, and `SIGKILL` and `SIGSTOP` are taken out of its mask. -/
def glibc : Libc where
  valid n := 1 ≤ n && n ≤ 64 && n != 32 && n != 33
  fixed n := n == sigkill || n == sigstop
  installed a := (a.1 ||| 0x04000000#32, a.2 &&& ~~~0x40100#64)
  catchable := by decide
  restart mask := (by decide : saRestart ||| 0x04000000#32 ≠ 0)

/-- With the snapshot feature, a handler for `SIGINT` that was set is not found again. -/
theorem signal_interposition_query :
    let ops : List Op := [.sigaction 2 (some ⟨.fn 1, 0#32, 0#64⟩) false, .sigaction 2 none true]
    (run (Lib.step glibc true) (enableSnapshot glibc true false fun _ => zeroAction) ops).2 =
        [some (.action none), some (.action (some ⟨.app .dfl, 0#32, 0#64⟩))] ∧
      (run (alone glibc) (fun _ => zeroAction) ops).2 =
        [some (.action none), some (.action (some ⟨.fn 1, 0x04000000#32, 0#64⟩))] := by
  decide

end AppView.Signals

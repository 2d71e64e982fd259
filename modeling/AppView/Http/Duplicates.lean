import AppView.Http.Table
import AppView.Metrics.Pipeline

/-!
# Duplicated sockets and their buffers

`doDupSock` copies the whole entry of a descriptor and then resets the HTTP state of the copy.
The copy includes the pointers to the buffers, so the reset releases what the original still
holds.
-/

namespace AppView.Http

open AppView.Framework Heap List Function Option
open AppView.Metrics (checkNetEntry dupEntry sockCloexec sockNonblock)

abbrev Place := ℤ × HttpDirection × Part

structure Channels where
  netinfo : ℤ → NetInfo := fun _ => {}
  heap : Heap Place := Heap.empty

namespace Channels

def getNetEntry (s : Channels) (fd : ℤ) : Option NetInfo :=
  if checkNetEntry fd && (s.netinfo fd).active then some (s.netinfo fd) else none

def resetPlaces (fd : ℤ) : List Place :=
  [(fd, .httpRx, .stash), (fd, .httpRx, .hdr), (fd, .httpTx, .stash), (fd, .httpTx, .hdr)]

def releaseHttp (heap : Heap Place) (fd : ℤ) : Heap Place :=
  ((resetPlaces fd).map Command.release).foldl exec heap

def doClose (s : Channels) (fd : ℤ) : Channels :=
  match s.getNetEntry fd with
  | none => s
  | some net =>
    { netinfo := Function.update s.netinfo fd
        { net with http := resetHttp net.http, active := false }
      heap := releaseHttp s.heap fd }

def addSock (s : Channels) (fd type : ℤ) (family : UInt16) (now : UInt64) : Channels :=
  if checkNetEntry fd then
    let s := if (s.netinfo fd).active then s.doClose fd else s
    { netinfo := Function.update s.netinfo fd
        { active := true
          type := (BitVec.ofInt 32 type &&& ~~~sockCloexec &&& ~~~sockNonblock).toInt
          localConn := { ssFamily := family }
          uid := now }
      heap := s.heap.clear fun p => p.1 = fd }
  else s

def doDupSock (s : Channels) (oldfd newfd : ℤ) (now : UInt64) : Channels :=
  if checkNetEntry newfd && checkNetEntry oldfd then
    { netinfo := Function.update s.netinfo newfd (dupEntry (s.netinfo oldfd) now)
      heap := releaseHttp
        (s.heap.copy fun p => if p.1 = newfd then (oldfd, p.2) else p) newfd }
  else s

def doDup (s : Channels) (fd rc : ℤ) (now : UInt64) : Channels :=
  if (s.getNetEntry fd).isSome then s.doDupSock fd rc now else s

def doDup2 (s : Channels) (oldfd newfd : ℤ) (now : UInt64) : Channels :=
  if oldfd ≠ newfd ∧ (s.getNetEntry oldfd).isSome then
    let s := if (s.getNetEntry newfd).isSome then s.doClose newfd else s
    s.doDupSock oldfd newfd now
  else s

def doProtocol (s : Channels) (env : HttpEnv) (sockfd : ℤ) (data : SrcData) (len : ℕ)
    (src : MetricT) : Channels × List ProtocolInfo :=
  match s.getNetEntry sockfd with
  | none => (s, [])
  | some net =>
    let env := { env with getNetEntry := s.getNetEntry }
    let r := doHttp env sockfd net data len src
    ({ netinfo := Function.update s.netinfo sockfd r.state
       heap := ((doHttpBuffers env sockfd net data len src).map
         (Command.map fun part => (sockfd, directionOf src, part))).foldl exec s.heap },
     r.posts)

end Channels

inductive Call where
  | addSock (fd type : ℤ) (family : UInt16) (now : UInt64)
  | data (env : HttpEnv) (sockfd : ℤ) (data : SrcData) (len : ℕ) (src : MetricT)
  | dup (fd rc : ℤ) (now : UInt64) (hrc : rc ≠ fd)
  | dup2 (oldfd newfd : ℤ) (now : UInt64)
  | close (fd : ℤ)

namespace Channels

def call (s : Channels) : Call → Channels × List ProtocolInfo
  | .addSock fd type family now => (s.addSock fd type family now, [])
  | .data env sockfd data len src => s.doProtocol env sockfd data len src
  | .dup fd rc now _ => (s.doDup fd rc now, [])
  | .dup2 oldfd newfd now => (s.doDup2 oldfd newfd now, [])
  | .close fd => (s.doClose fd, [])

/-! ## The invariant -/

structure Keeps (s : Channels) : Prop where
  sound : s.heap.Sound
  fits : ∀ fd, AllFit (s.netinfo fd).http fun d part => (s.heap.own (fd, d, part)).isSome

variable {fd : ℤ} {s : Channels} {c : Call}

theorem mem_resetPlaces {p : Place} : p ∈ resetPlaces fd ↔ p.1 = fd := by
  obtain ⟨fd', d, part⟩ := p
  cases d <;> cases part <;> simp [resetPlaces]

theorem own_releaseHttp (heap : Heap Place) (fd : ℤ) (p : Place) :
    (releaseHttp heap fd).own p = if p.1 = fd then none else heap.own p := by
  rw [releaseHttp, own_release_foldl]
  simp [mem_resetPlaces]

theorem allFit_resetHttp (states : HttpDirection → HttpState) :
    AllFit (resetHttp states) fun _ _ => false := by
  intro d
  have hreset := Fits.reset (states d) fun _ => false
  have hnone : resetBuffers.foldl Command.holds (fun _ => false) = fun _ => false := by
    funext part
    cases part <;> rfl
  rwa [hnone] at hreset

theorem Keeps.setEntry (hs : s.Keeps) {net : NetInfo} {heap : Heap Place} (hsound : heap.Sound)
    (hnet : AllFit net.http fun _ _ => false)
    (hown : ∀ p, heap.own p = if p.1 = fd then none else s.heap.own p) :
    Keeps ⟨update s.netinfo fd net, heap⟩ := by
  refine ⟨hsound, fun fd' => ?_⟩
  dsimp only
  by_cases hfd : fd' = fd
  · rw [hfd, update_self]
    simp only [hown, if_true]
    exact hnet
  · rw [update_of_ne hfd]
    simpa [hown, if_neg hfd] using hs.fits fd'

theorem Keeps.doClose (hs : s.Keeps) (fd : ℤ) : (s.doClose fd).Keeps := by
  rw [Channels.doClose]
  cases s.getNetEntry fd with
  | none => exact hs
  | some net =>
    exact hs.setEntry (hs.sound.foldl _) (allFit_resetHttp net.http) (own_releaseHttp s.heap fd)

theorem Keeps.addSock (hs : s.Keeps) (fd type : ℤ) (family : UInt16) (now : UInt64) :
    (s.addSock fd type family now).Keeps := by
  rw [Channels.addSock]
  by_cases hfd : checkNetEntry fd = true
  · rw [if_pos hfd]
    have hclosed : (if (s.netinfo fd).active = true then s.doClose fd else s).Keeps := by
      split_ifs with hactive
      · exact hs.doClose fd
      · exact hs
    refine hclosed.setEntry (hclosed.sound.clear _) (allFit_resetHttp fun _ => {}) fun p => ?_
    simp [clear]
  · rw [if_neg hfd]
    exact hs

/-! ## Copying an entry -/

theorem Keeps.bare_iff (hs : s.Keeps) (fd : ℤ) :
    (∀ d, Bare ((s.netinfo fd).http d)) ↔ ∀ d part, s.heap.own (fd, d, part) = none := by
  refine forall_congr' fun d => ((hs.fits fd d).bare_iff).trans (forall_congr' fun part => ?_)
  rw [isSome_eq_false_iff, isNone_iff_eq_none]

variable {oldfd newfd : ℤ} {d : HttpDirection} {part : Part} {id : ℕ} {pair : ℤ × ℤ}

/-- **An entry without buffers can be copied.** -/
theorem Keeps.doDupSock (hs : s.Keeps) (now : UInt64)
    (hbare : checkNetEntry newfd = true → ∀ d, Bare ((s.netinfo oldfd).http d)) :
    (s.doDupSock oldfd newfd now).Keeps := by
  rw [Channels.doDupSock]
  split_ifs with hcheck
  · have hnone := (hs.bare_iff oldfd).1 (hbare (Bool.and_eq_true_iff.1 hcheck).1)
    have hcopy : ∀ p, (s.heap.copy fun p => if p.1 = newfd then (oldfd, p.2) else p).own p =
        if p.1 = newfd then none else s.heap.own p := by
      intro p
      rw [copy]
      dsimp only
      split_ifs with hp
      · rw [hnone]
      · rfl
    have hsound : (s.heap.copy fun p => if p.1 = newfd then (oldfd, p.2) else p).Sound := by
      refine hs.sound.forget fun p => ?_
      have hp := hcopy p
      by_cases hnew : p.1 = newfd
      · exact .inl (hp.trans (if_pos hnew))
      · exact .inr (hp.trans (if_neg hnew))
    refine hs.setEntry (hsound.foldl _) (allFit_resetHttp (s.netinfo oldfd).http) fun p => ?_
    rw [own_releaseHttp, hcopy]
    split_ifs with hp
    · rfl
    · rfl
  · exact hs

/-- **A copied buffer is released, and the original still holds it.** -/
theorem dangling_doDupSock (now : UInt64) (hne : newfd ≠ oldfd)
    (hcheck : (checkNetEntry newfd && checkNetEntry oldfd) = true)
    (hown : s.heap.own (oldfd, d, part) = some id) :
    (s.doDupSock oldfd newfd now).heap.own (oldfd, d, part) = some id ∧
      id ∈ (s.doDupSock oldfd newfd now).heap.released := by
  rw [Channels.doDupSock, if_pos hcheck]
  constructor
  · rw [own_releaseHttp, if_neg hne.symm, copy]
    exact (congrArg s.heap.own (if_neg hne.symm)).trans hown
  · refine mem_released_foldl (p := (newfd, d, part)) ?_ (mem_resetPlaces.2 rfl)
    exact (congrArg s.heap.own (if_pos rfl)).trans hown

theorem faults_doClose (hfd : (s.getNetEntry fd).isSome = true)
    (hown : s.heap.own (fd, d, part) = some id) (hid : id ∈ s.heap.released) :
    0 < (s.doClose fd).heap.faults := by
  rw [Channels.doClose]
  obtain ⟨net, hnet⟩ := isSome_iff_exists.1 hfd
  rw [hnet]
  exact faults_of_dangling hown hid (mem_resetPlaces.2 rfl)

/-! ## Data -/

theorem Keeps.doProtocol (hs : s.Keeps) (env : HttpEnv) (sockfd : ℤ) (data : SrcData) (len : ℕ)
    (src : MetricT) : (s.doProtocol env sockfd data len src).1.Keeps := by
  rw [Channels.doProtocol]
  cases hnet : s.getNetEntry sockfd with
  | none => exact hs
  | some net =>
    have hentry : s.netinfo sockfd = net := by
      rw [Channels.getNetEntry] at hnet
      split_ifs at hnet
      exact some.inj hnet
    refine ⟨hs.sound.foldl _, fun fd => ?_⟩
    dsimp only
    by_cases hfd : fd = sockfd
    · subst hfd
      rw [update_self]
      have hfits := hs.fits fd
      rw [hentry] at hfits
      -- the pointers after the call are those that its commands leave
      convert hfits.doHttp { env with getNetEntry := s.getNetEntry } fd data len src using 1
      funext d
      rw [holdsAt]
      by_cases hd : d = directionOf src
      · subst hd
        rw [update_self]
        exact isSome_foldl_map (fun _ _ h => (Prod.mk.inj (Prod.mk.inj h).2).2) _
      · rw [update_of_ne hd]
        funext part
        rw [own_foldl_map fun x h => hd (Prod.mk.inj (Prod.mk.inj h).2).1.symm]
    · rw [update_of_ne hfd]
      convert hs.fits fd using 1
      funext d part
      rw [own_foldl_map fun x h => hfd (Prod.mk.inj h).1.symm]

/-! ## Every call -/

def copies : Call → Option (ℤ × ℤ)
  | .dup fd rc _ _ => some (fd, rc)
  | .dup2 oldfd newfd _ => if oldfd ≠ newfd then some (oldfd, newfd) else none
  | _ => none

def CopiesNothing (s : Channels) (c : Call) : Prop :=
  ∀ pair ∈ copies c, (s.getNetEntry pair.1).isSome = true → checkNetEntry pair.2 = true →
    ∀ d, Bare ((s.netinfo pair.1).http d)

theorem copies_ne (h : pair ∈ copies c) : pair.2 ≠ pair.1 := by
  cases c with
  | dup fd rc now hrc =>
    rw [← some.inj h]
    exact hrc
  | dup2 oldfd newfd now =>
    rw [copies] at h
    split_ifs at h with hne
    · rw [← some.inj h]
      exact hne.symm
    · cases h
  | addSock | data | close => cases h

theorem netinfo_doClose_of_ne (s : Channels) {fd' : ℤ} (h : fd' ≠ fd) :
    (s.doClose fd).netinfo fd' = s.netinfo fd' := by
  rw [Channels.doClose]
  cases s.getNetEntry fd with
  | none => rfl
  | some net => exact update_of_ne h _ _

theorem getNetEntry_congr {t : Channels} (h : t.netinfo fd = s.netinfo fd) :
    t.getNetEntry fd = s.getNetEntry fd := by
  rw [Channels.getNetEntry, Channels.getNetEntry, h]

theorem Keeps.call_copies (hs : s.Keeps) (hpair : pair ∈ copies c)
    (hentry : (s.getNetEntry pair.1).isSome = true) :
    ∃ (t : Channels) (now : UInt64), t.Keeps ∧ t.netinfo pair.1 = s.netinfo pair.1 ∧
      (s.call c).1 = t.doDupSock pair.1 pair.2 now := by
  cases c with
  | dup fd rc now hrc =>
    rw [← some.inj hpair] at hentry ⊢
    exact ⟨s, now, hs, rfl, if_pos hentry⟩
  | dup2 oldfd newfd now =>
    rw [copies] at hpair
    split_ifs at hpair with hne
    · rw [← some.inj hpair] at hentry ⊢
      by_cases hnew : (s.getNetEntry newfd).isSome = true
      · refine ⟨s.doClose newfd, now, hs.doClose newfd, s.netinfo_doClose_of_ne hne, ?_⟩
        rw [call, doDup2, if_pos ⟨hne, hentry⟩, if_pos hnew]
      · refine ⟨s, now, hs, rfl, ?_⟩
        rw [call, doDup2, if_pos ⟨hne, hentry⟩, if_neg hnew]
    · cases hpair
  | addSock | data | close => cases hpair

theorem Keeps.call_of_not_copies (hs : s.Keeps)
    (h : ∀ pair ∈ copies c, (s.getNetEntry pair.1).isSome = false) : (s.call c).1.Keeps := by
  cases c with
  | addSock fd type family now => exact hs.addSock fd type family now
  | data env sockfd data len src => exact hs.doProtocol env sockfd data len src
  | close fd => exact hs.doClose fd
  | dup fd rc now hrc =>
    have hnone := h (fd, rc) rfl
    rw [call, doDup, if_neg (Bool.eq_false_iff.1 hnone)]
    exact hs
  | dup2 oldfd newfd now =>
    rw [call, doDup2, if_neg]
    · exact hs
    · rintro ⟨hne, hentry⟩
      have hnone := h (oldfd, newfd) (if_pos hne)
      exact Bool.eq_false_iff.1 hnone hentry

/-- **A call that copies no buffer keeps the invariant.** -/
theorem Keeps.call (hs : s.Keeps) (hc : CopiesNothing s c) : (s.call c).1.Keeps := by
  by_cases h : ∃ pair ∈ copies c, (s.getNetEntry pair.1).isSome = true
  · obtain ⟨pair, hpair, hentry⟩ := h
    obtain ⟨t, now, ht, hold, hcall⟩ := hs.call_copies hpair hentry
    rw [hcall]
    refine ht.doDupSock now fun hcheck => ?_
    rw [hold]
    exact hc pair hpair hentry hcheck
  · push Not at h
    exact hs.call_of_not_copies fun pair hpair => Bool.eq_false_iff.2 (h pair hpair)

/-! ## What is promised of the buffers -/

structure Safe (s : Channels) : Prop where
  unique : ∀ p q id, s.heap.own p = some id → s.heap.own q = some id → p.1 = q.1
  faults : s.heap.faults = 0

def Stays (s : Channels) : Prop := s.Safe ∧ ∀ fd, (s.doClose fd).Safe

theorem Keeps.safe (hs : s.Keeps) : s.Safe :=
  ⟨fun p q id hp hq => congrArg Prod.fst (hs.sound.unique p q id hp hq), hs.sound.faults⟩

theorem Keeps.stays (hs : s.Keeps) : s.Stays :=
  ⟨hs.safe, fun fd => (hs.doClose fd).safe⟩

theorem not_stays_call (hs : s.Keeps) (hc : ¬ CopiesNothing s c) : ¬ (s.call c).1.Stays := by
  rw [CopiesNothing] at hc
  push Not at hc
  obtain ⟨pair, hpair, hentry, hcheck, d, hbuffer⟩ := hc
  obtain ⟨t, now, ht, hold, hcall⟩ := hs.call_copies hpair hentry
  -- the original has a buffer, so it has a pointer to one
  have hsome : ∃ d part id, t.heap.own (pair.1, d, part) = some id := by
    by_contra hnone
    push Not at hnone
    refine hbuffer ?_
    rw [← hold]
    exact (ht.bare_iff pair.1).2 (fun d part => eq_none_iff_forall_ne_some.2 (hnone d part)) d
  obtain ⟨d, part, id, hown⟩ := hsome
  have hentry' : (t.getNetEntry pair.1).isSome = true := by rwa [getNetEntry_congr hold]
  have hboth : (checkNetEntry pair.2 && checkNetEntry pair.1) = true := by
    rw [hcheck, Bool.true_and]
    rw [Channels.getNetEntry] at hentry'
    by_cases hactive : (checkNetEntry pair.1 && (t.netinfo pair.1).active) = true
    · exact (Bool.and_eq_true_iff.1 hactive).1
    · rw [if_neg hactive] at hentry'
      cases hentry'
  have hne := copies_ne hpair
  obtain ⟨hheld, hreleased⟩ := dangling_doDupSock now hne hboth hown
  intro hstays
  refine Nat.ne_of_gt (faults_doClose (s := t.doDupSock pair.1 pair.2 now) ?_ hheld hreleased) ?_
  · rw [getNetEntry_congr (s := t), hentry']
    rw [Channels.doDupSock, if_pos hboth]
    exact update_of_ne hne.symm _ _
  · rw [← hcall]
    exact (hstays.2 pair.1).faults

def after (s : Channels) (c : Call) : Channels := (s.call c).1

/-- **Safe after every initial part of the calls, exactly if no call copies a buffer.** -/
theorem stays_iff (calls : List Call) :
    (∀ before, before <+: calls → (before.foldl after {}).Stays) ↔
      Along (fun s c => (after s c, ())) CopiesNothing {} calls := by
  have agrees : ∀ s t : Channels, s = t ∧ t.Keeps → s.Stays := by
    rintro s t ⟨rfl, ht⟩
    exact ht.stays
  have keep : ∀ (s t : Channels) (c : Call), s = t ∧ t.Keeps → True → CopiesNothing t c →
      after s c = after t c ∧ (after t c).Keeps := by
    rintro s t c ⟨rfl, ht⟩ - hc
    exact ⟨rfl, ht.call hc⟩
  have wrong : ∀ (s t : Channels) (c : Call), s = t ∧ t.Keeps → True → ¬ CopiesNothing t c →
      ¬ (after s c).Stays := by
    rintro s t c ⟨rfl, ht⟩ - hc
    exact not_stays_call ht hc
  exact prefixes_iff (R := fun s t => s = t ∧ Keeps t) agrees keep wrong
    ⟨rfl, sound_empty, fun _ => allFit_resetHttp fun _ => {}⟩
    (along_of_forall (fun _ _ => trivial) _ calls)

end Channels

/-! ## The events of a descriptor -/

namespace Channels

def isOn (fd : ℤ) : Call → Bool
  | .addSock fd' _ _ _ | .data _ fd' _ _ _ | .close fd' => fd' = fd
  | .dup .. | .dup2 .. => false

def eventsOf (fd : ℤ) : Channels → List Call → List ProtocolInfo :=
  gather call fun s c => if isOn fd c then (s.call c).2 else []

def Own (s : Channels) : Prop := ∀ fd, OwnIds fd (s.netinfo fd).http

variable {s t : Channels} {fd : ℤ} {net : NetInfo}

theorem Own.setEntry (h : s.Own) (hnet : OwnIds fd net.http) (heap : Heap Place) :
    Own ⟨update s.netinfo fd net, heap⟩ := by
  exact (forall_update_iff s.netinfo fun fd net => OwnIds fd net.http).2 ⟨hnet, fun fd' _ => h fd'⟩

theorem ownIds_resetHttp (fd : ℤ) (states : HttpDirection → HttpState) :
    OwnIds fd (resetHttp states) :=
  fun d => OwnId.reset fd (states d)

theorem Own.doClose (h : s.Own) (fd : ℤ) : (s.doClose fd).Own := by
  rw [Channels.doClose]
  cases s.getNetEntry fd with
  | none => exact h
  | some net => exact h.setEntry (ownIds_resetHttp fd net.http) _

theorem Own.doDupSock (h : s.Own) (oldfd newfd : ℤ) (now : UInt64) :
    (s.doDupSock oldfd newfd now).Own := by
  rw [Channels.doDupSock]
  split_ifs
  · exact h.setEntry (ownIds_resetHttp newfd (s.netinfo oldfd).http) _
  · exact h

theorem getNetEntry_some (h : s.getNetEntry fd = some net) : s.netinfo fd = net := by
  rw [Channels.getNetEntry] at h
  split_ifs at h
  exact some.inj h

theorem Own.call (h : s.Own) (c : Call) : (s.call c).1.Own := by
  cases c with
  | addSock fd type family now =>
    rw [Channels.call, Channels.addSock]
    by_cases hfd : checkNetEntry fd = true
    · rw [if_pos hfd]
      refine Own.setEntry ?_ (ownIds_resetHttp fd fun _ => {}) _
      split_ifs
      · exact h.doClose fd
      · exact h
    · rw [if_neg hfd]
      exact h
  | data env sockfd data len src =>
    rw [Channels.call, Channels.doProtocol]
    cases hnet : s.getNetEntry sockfd with
    | none => exact h
    | some net =>
      have hids := h sockfd
      rw [getNetEntry_some hnet] at hids
      have hg : s.getNetEntry sockfd =
        HttpEnv.getNetEntry { env with getNetEntry := s.getNetEntry } sockfd := rfl
      exact h.setEntry (hids.doHttp hg data len src).2 _
  | dup fd rc now hrc =>
    rw [Channels.call, Channels.doDup]
    split_ifs
    · exact h.doDupSock fd rc now
    · exact h
  | dup2 oldfd newfd now =>
    rw [Channels.call, Channels.doDup2]
    split_ifs
    · exact (h.doClose newfd).doDupSock oldfd newfd now
    · exact h.doDupSock oldfd newfd now
    · exact h
  | close fd => exact h.doClose fd

theorem own_after (calls : List Call) : (calls.foldl after {}).Own := by
  have hrun : ∀ (s : Channels), s.Own → (calls.foldl after s).Own := by
    induction calls with
    | nil => exact fun s h => h
    | cons c calls ih => exact fun s h => ih _ (h.call c)
  exact hrun {} fun fd => ownIds_resetHttp fd fun _ => {}

theorem netinfo_doDupSock_of_ne (s : Channels) {oldfd newfd : ℤ} (now : UInt64)
    (h : fd ≠ newfd) : (s.doDupSock oldfd newfd now).netinfo fd = s.netinfo fd := by
  rw [Channels.doDupSock]
  split_ifs
  · exact update_of_ne h _ _
  · rfl

theorem netinfo_call_of_not_isOn (s : Channels) {c : Call} (hc : isOn fd c = false)
    (htarget : ∀ pair ∈ copies c, pair.2 ≠ fd) : (s.call c).1.netinfo fd = s.netinfo fd := by
  cases c with
  | addSock fd' type family now =>
    have hne : fd ≠ fd' := fun h => of_decide_eq_false hc h.symm
    rw [call, Channels.addSock]
    by_cases hfd : checkNetEntry fd' = true
    · rw [if_pos hfd]
      refine (update_of_ne hne _ _).trans ?_
      split_ifs
      · exact s.netinfo_doClose_of_ne hne
      · rfl
    · rw [if_neg hfd]
  | data env sockfd data len src =>
    have hne : fd ≠ sockfd := fun h => of_decide_eq_false hc h.symm
    rw [call, Channels.doProtocol]
    cases s.getNetEntry sockfd with
    | none => rfl
    | some net => exact update_of_ne hne _ _
  | close fd' => exact s.netinfo_doClose_of_ne fun h => of_decide_eq_false hc h.symm
  | dup fd' rc now hrc =>
    rw [call, Channels.doDup]
    split_ifs
    · exact s.netinfo_doDupSock_of_ne now (htarget (fd', rc) rfl).symm
    · rfl
  | dup2 oldfd newfd now =>
    rw [call, Channels.doDup2]
    by_cases hcopy : oldfd ≠ newfd ∧ (s.getNetEntry oldfd).isSome = true
    · rw [if_pos hcopy]
      have hne : fd ≠ newfd := (htarget (oldfd, newfd) (if_pos hcopy.1)).symm
      rw [netinfo_doDupSock_of_ne _ now hne]
      split_ifs
      · exact s.netinfo_doClose_of_ne hne
      · rfl
    · rw [if_neg hcopy]

theorem netinfo_doClose_congr (hst : s.netinfo fd = t.netinfo fd) :
    (s.doClose fd).netinfo fd = (t.doClose fd).netinfo fd := by
  rw [Channels.doClose, Channels.doClose, getNetEntry_congr hst]
  cases t.getNetEntry fd with
  | none => exact hst
  | some net =>
    dsimp only
    rw [update_self, update_self]

/-- **What a call on a descriptor does to it and posts depends on its entry alone.** -/
theorem call_congr {c : Call} (hs : OwnIds fd (s.netinfo fd).http)
    (hst : s.netinfo fd = t.netinfo fd) (hc : isOn fd c = true) :
    (s.call c).1.netinfo fd = (t.call c).1.netinfo fd ∧ (s.call c).2 = (t.call c).2 := by
  cases c with
  | addSock fd' type family now =>
    obtain rfl : fd' = fd := of_decide_eq_true hc
    refine ⟨?_, rfl⟩
    rw [call, call, Channels.addSock, Channels.addSock]
    by_cases hfd : checkNetEntry fd' = true
    · rw [if_pos hfd, if_pos hfd]
      dsimp only
      rw [update_self, update_self]
    · rw [if_neg hfd, if_neg hfd]
      exact hst
  | data env sockfd data len src =>
    obtain rfl : sockfd = fd := of_decide_eq_true hc
    rw [call, call, Channels.doProtocol, Channels.doProtocol, ← getNetEntry_congr hst]
    cases hnet : s.getNetEntry sockfd with
    | none => exact ⟨hst, rfl⟩
    | some net =>
      rw [getNetEntry_some hnet] at hs
      -- the two tables agree on this descriptor
      have hg : t.getNetEntry sockfd =
        HttpEnv.getNetEntry { env with getNetEntry := s.getNetEntry } sockfd :=
        (getNetEntry_congr hst).symm
      have hsame := (hs.doHttp hg data len src).1
      dsimp only at hsame ⊢
      rw [hsame, update_self, update_self]
      exact ⟨rfl, rfl⟩
  | close fd' =>
    obtain rfl : fd' = fd := of_decide_eq_true hc
    exact ⟨netinfo_doClose_congr hst, rfl⟩
  | dup | dup2 => cases hc

/-- **Without the calls on other descriptors the events are the same.** -/
theorem eventsOf_filter (hs : s.Own) (hst : s.netinfo fd = t.netinfo fd) {calls : List Call}
    (htarget : ∀ c ∈ calls, ∀ pair ∈ copies c, pair.2 ≠ fd) :
    eventsOf fd s calls = eventsOf fd t (calls.filter (isOn fd)) := by
  induction calls generalizing s t with
  | nil => rfl
  | cons c calls ih =>
    have hrest := (forall_mem_cons.1 htarget).2
    by_cases hc : isOn fd c = true
    · obtain ⟨hentry, hposts⟩ := call_congr (hs fd) hst hc
      rw [filter_cons_of_pos hc]
      simp only [eventsOf, gather, if_pos hc, hposts]
      exact congrArg _ (ih (hs.call c) hentry hrest)
    · have hother := s.netinfo_call_of_not_isOn (Bool.eq_false_iff.2 hc) (htarget c mem_cons_self)
      rw [filter_cons_of_neg hc]
      simp only [eventsOf, gather, if_neg hc, nil_append]
      exact ih (hs.call c) (hother.trans hst) hrest

/-- **Duplicated sockets.** After every initial part of the calls no buffer belongs to two
descriptors and none was used or released after its release, also when a descriptor is closed
next, exactly if no socket is duplicated while it has a buffer. Then the events of a descriptor
are those of its own calls alone, from any point on where nothing is duplicated onto it. -/
theorem duplicated_sockets (calls : List Call) :
    ((∀ before, before <+: calls → (before.foldl after {}).Stays) ↔
      Along (fun s c => (after s c, ())) CopiesNothing {} calls) ∧
    (Along (fun s c => (after s c, ())) CopiesNothing {} calls →
      ∀ (fd : ℤ) (before later : List Call), before ++ later = calls →
        (∀ c ∈ later, ∀ pair ∈ copies c, pair.2 ≠ fd) →
        eventsOf fd (before.foldl after {}) later =
          eventsOf fd (before.foldl after {}) (later.filter (isOn fd))) :=
  ⟨stays_iff calls, fun _ _ before _ _ htarget => eventsOf_filter (own_after before) rfl htarget⟩

def statusLine : List UInt8 :=
  [0x48, 0x54, 0x54, 0x50, 0x2F, 0x31, 0x2E, 0x31, 0x20, 0x32, 0x30, 0x30, 0x20, 0x4F, 0x4B,
   0x0D, 0x0A]

def partialHeader (fd : ℤ) : Call := .data .idle fd (.buf statusLine) statusLine.length .netrx

def earlyDup : List Call :=
  [.addSock 3 sockStream afInet 1, .dup 3 4 2 (by decide), partialHeader 3, partialHeader 4,
    .close 4, .data .idle 3 (.buf httpEnd) 2 .netrx]

theorem duplicated_sockets_early : Along (fun s c => (after s c, ())) CopiesNothing {} earlyDup ∧
    (∀ before, before <+: earlyDup → (before.foldl after {}).Stays) ∧
    eventsOf 3 {} earlyDup = eventsOf 3 {} (earlyDup.filter (isOn 3)) := by
  have hnone : ∀ (s : Channels) (c : Call), copies c = none → CopiesNothing s c := by
    intro s c hc pair hpair
    rw [hc] at hpair
    cases hpair
  have halong : Along (fun s c => (after s c, ())) CopiesNothing {} earlyDup := by
    refine ⟨hnone _ _ rfl, ?_, hnone _ _ rfl, hnone _ _ rfl, hnone _ _ rfl, hnone _ _ rfl, trivial⟩
    intro pair hpair _ _ d
    rw [← some.inj hpair]
    exact ⟨rfl, rfl⟩
  refine ⟨halong, (duplicated_sockets earlyDup).1.2 halong,
    (duplicated_sockets earlyDup).2 halong 3 [] earlyDup rfl ?_⟩
  intro c hc pair hpair
  simp only [earlyDup, mem_cons, not_mem_nil, or_false] at hc
  rcases hc with rfl | rfl | rfl | rfl | rfl | rfl
  · cases hpair
  · rw [← some.inj hpair]
    decide
  · cases hpair
  · cases hpair
  · cases hpair
  · cases hpair

def lateDup : List Call :=
  [.addSock 3 sockStream afInet 1, partialHeader 3, .dup 3 4 2 (by decide), .close 3]

theorem duplicated_sockets_late : (lateDup.foldl after {}).heap.faults = 1 := by
  decide +kernel

end Channels

end AppView.Http

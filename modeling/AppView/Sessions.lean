import AppView.Framework.IntObject
import AppView.Framework.Pattern

/-!
# Session directories

Each run of a command gets a directory in the history whose name holds the command, the number
of the session, the process id and the time, with underscores between them.
**`session_round_trip`**: a session is read back as it was created exactly if its command has
no underscore, its numbers have no sign, and every other entry of the history has such a name
in it.
-/

namespace AppView.Sessions

open AppView.Framework AppView.Framework.Pattern List Option

/-! ## Numbers -/

def parseMagnitude (neg : Bool) (cs : List Char) : Int64 × Bool :=
  match readNat cs with
  | none => (0, false)
  | some (n, rest) =>
    if rest ≠ [] ∧ n < 2 ^ 64 then (0, false)
    else if neg then
      if n ≤ 2 ^ 63 then (Int64.ofInt (-n), true) else (Int64.minValue, false)
    else if n < 2 ^ 63 then (Int64.ofNat n, true) else (Int64.maxValue, false)

def parseInt : List Char → Int64 × Bool
  | '-' :: cs => parseMagnitude true cs
  | '+' :: cs => parseMagnitude false cs
  | cs => parseMagnitude false cs

def itoa (n : Int64) : List Char := decimal n.toInt

/-! ## Creating a directory -/

structure Home where
  count : Option (List Char)
  history : List (List Char)
  tmp : List (List Char)

inductive Start where
  | run (path : List Char) (pid : Int64)
  | attach (pid : Int64) (name : List Char)

def base (path : List Char) : List Char :=
  if path = [] then ['.']
  else
    let name := (path.rdropWhile (· = '/')).rtakeWhile (· ≠ '/')
    if name = [] then ['/'] else name

def Start.cmd : Start → List Char
  | run path _ => base path
  | attach _ name => name

def Start.pid : Start → Int64
  | run _ pid => pid
  | attach pid _ => pid

def lastSessionID (home : Home) : Int64 :=
  match home.count with
  | none => 0
  | some text => if (parseInt text).2 then (parseInt text).1 else 0

def nextSessionID (home : Home) : Int64 := lastSessionID home + 1

def getSessionID (home : Home) : Int64 × Home :=
  (nextSessionID home, { home with count := some (itoa (nextSessionID home)) })

def dirName (cmd : List Char) (id pid ts : Int64) : List Char :=
  cmd ++ '_' :: (itoa id ++ '_' :: (itoa pid ++ '_' :: itoa ts))

-- named here, or each definition that asks for a member carries the proof
local instance instLawfulBEqName : LawfulBEq (List Char) := inferInstance

def creatable (name : List Char) (dir : List (List Char)) : Bool :=
  name ≠ [] ∧ '/' ∉ name ∧ '\x00' ∉ name ∧ name.length ≤ 255 ∧ name ∉ dir

/-- `createWorkDir`, with the name of the directory that is made. Nothing is made for a
configuration whose working directory exists, and the command ends if the directory cannot be
made. Slashes at the beginning of the name are lost when the path is joined. -/
def createWorkDir (existing : Bool) (start : Start) (now : Int64) (home : Home) :
    Home × Option (List Char) :=
  if existing then (home, none)
  else
    let (sessionID, home) := getSessionID home
    let name := (dirName start.cmd sessionID start.pid now).dropWhile (· = '/')
    match start with
    | .run _ _ =>
      if creatable name home.history then
        ({ home with history := name :: home.history }, some name)
      else (home, none)
    | .attach _ _ =>
      -- the directory is in /tmp, and the history gets a link to it
      if creatable name home.tmp then
        ({ home with tmp := name :: home.tmp, history := home.history.insert name }, some name)
      else (home, none)

/-! ## Reading the history -/

structure Session where
  id : Int64
  cmd : List Char
  pid : Int64
  timestamp : Int64
  workDir : List Char
  argsPath : List Char
  cmdDirPath : List Char
  eventsPath : List Char
  metricsPath : List Char
  metricsDestPath : List Char
  metricsFormatPath : List Char
  eventsDestPath : List Char
  payloadsPath : List Char
  appviewLogPath : List Char
  libappviewLogPath : List Char

def join (dir name : List Char) : List Char := dir ++ '/' :: name

def re : Pattern Char :=
  seqAll [group (run (· ≠ '_')), word ['_'], group (run Char.isDigit), word ['_'],
    group (run Char.isDigit), word ['_'], group (run Char.isDigit)]

def readSession (histDir name : List Char) : Option Session :=
  match search re name with
  | some [cmd, id, pid, ts] =>
    let workDir := join histDir name
    some {
      id := (parseInt id).1
      cmd := cmd
      pid := (parseInt pid).1
      timestamp := (parseInt ts).1
      workDir := workDir
      argsPath := join workDir "args.json".toList
      cmdDirPath := join workDir "cmd".toList
      eventsPath := join workDir "events.json".toList
      metricsPath := join workDir "metrics.json".toList
      metricsDestPath := join workDir "metric_dest".toList
      metricsFormatPath := join workDir "metric_format".toList
      eventsDestPath := join workDir "event_dest".toList
      payloadsPath := join workDir "payloads".toList
      appviewLogPath := join workDir "appview.log".toList
      libappviewLogPath := join workDir "libappview.log".toList }
  | _ => none

def getSessions (histDir : List Char) (home : Home) : Option (List Session) :=
  (home.history.mapM (readSession histDir)).map fun ss =>
    ss.mergeSort fun a b => a.id.toInt ≤ b.id.toInt

/-! ## What the expression finds -/

def Digits (cs : List Char) : Prop := cs ≠ [] ∧ ∀ c ∈ cs, c.isDigit = true

theorem isDigit_underscore : Char.isDigit '_' = false := by decide

variable {cs cmd name histDir : List Char} {n : Int64} {home : Home}

theorem Digits.underscore_notMem (h : Digits cs) : '_' ∉ cs := by
  intro hmem
  have hdigit := h.2 _ hmem
  rw [isDigit_underscore] at hdigit
  cases hdigit

theorem forall_ne_underscore (h : '_' ∉ cs) : ∀ c ∈ cs, decide (c ≠ '_') = true := by
  intro c hc
  refine decide_eq_true ?_
  rintro rfl
  exact h hc

theorem mem_ways_re {s r : List Char} {cs : List (List Char)} : (cs, r) ∈ ways re s ↔
      ∃ cmd id pid ts, cs = [cmd, id, pid, ts] ∧ cmd ≠ [] ∧ '_' ∉ cmd ∧ Digits id ∧
        Digits pid ∧ Digits ts ∧
        s = cmd ++ '_' :: (id ++ '_' :: (pid ++ '_' :: (ts ++ r))) := by
  have hcmd := (reads_run fun c : Char => decide (c ≠ '_')).group
  have hdigits := (reads_run Char.isDigit).group
  constructor
  · intro h
    obtain ⟨cmd, s₁, cs₁, rfl, hc, rfl, h₁⟩ := hcmd.seq_word.1 h
    obtain ⟨id, s₂, cs₂, rfl, hi, rfl, h₂⟩ := hdigits.seq_word.1 h₁
    obtain ⟨pid, s₃, cs₃, rfl, hp, rfl, h₃⟩ := hdigits.seq_word.1 h₂
    obtain ⟨ts, rfl, ht, rfl⟩ := hdigits.1 h₃
    refine ⟨cmd, id, pid, ts, rfl, hc.1, fun hmem => ?_, hi, hp, ht, rfl⟩
    exact of_decide_eq_true (hc.2 _ hmem) rfl
  · rintro ⟨cmd, id, pid, ts, rfl, hne, hmem, hi, hp, ht, rfl⟩
    refine hcmd.seq_word.2 ⟨cmd, _, _, rfl, ⟨hne, forall_ne_underscore hmem⟩, rfl, ?_⟩
    refine hdigits.seq_word.2 ⟨id, _, _, rfl, hi, rfl, ?_⟩
    refine hdigits.seq_word.2 ⟨pid, _, _, rfl, hp, rfl, ?_⟩
    exact hdigits.2 ⟨ts, rfl, ht, rfl⟩

theorem search_re {id pid ts : List Char} (hne : cmd ≠ []) (hmem : '_' ∉ cmd) (hid : Digits id)
    (hpid : Digits pid) (hts : Digits ts) :
    search re (cmd ++ '_' :: (id ++ '_' :: (pid ++ '_' :: ts))) = some [cmd, id, pid, ts] := by
  have hcmd := forall_ne_underscore hmem
  have hlast : first (fun _ => true) (group (run Char.isDigit)) ts = some ([ts], []) :=
    first_group_run rfl hts.1 hts.2
  have hpids := first_group_run_word hpid.1 hpid.2 isDigit_underscore hlast
  have hids := first_group_run_word hid.1 hid.2 isDigit_underscore hpids
  exact search_of_first (first_group_run_word hne hcmd (decide_eq_false (not_not.2 rfl)) hids)

/-! ## Numbers as they are printed -/

theorem underscore_notMem_itoa (n : Int64) : '_' ∉ itoa n := by
  intro hmem
  rcases mem_decimal hmem with h | h
  · rw [isDigit_underscore] at h
    cases h
  · cases h

theorem digits_itoa (h : 0 ≤ n.toInt) : Digits (itoa n) := by
  obtain ⟨k, hk⟩ := Int.eq_ofNat_of_zero_le h
  rw [itoa, hk]
  exact ⟨Nat.toDigits_ne_nil, fun c hc => isDigit_of_mem_toDigits hc⟩

theorem nonneg_of_digits {rest : List Char} (h : Digits cs) (hn : itoa n = cs ++ rest) :
    0 ≤ n.toInt := by
  rw [itoa] at hn
  cases hz : n.toInt with
  | ofNat k => exact Int.natCast_nonneg k
  | negSucc k =>
    rw [hz, decimal] at hn
    obtain ⟨c, cs, rfl⟩ := exists_cons_of_ne_nil h.1
    obtain ⟨rfl, -⟩ := cons.inj hn
    exact absurd (h.2 _ mem_cons_self) (by decide)

theorem parseInt_itoa (h : 0 ≤ n.toInt) : parseInt (itoa n) = (n, true) := by
  obtain ⟨k, hk⟩ := Int.eq_ofNat_of_zero_le h
  have hlt : k < 2 ^ 63 := by
    have hrange := Int64.toInt_lt n
    omega
  have hread : readNat (itoa n) = some (k, []) := by
    have hend : NoDigit [] := fun c hc => by cases hc
    have hdigits := readNat_toDigits k hend
    rw [append_nil] at hdigits
    rw [itoa, hk]
    exact hdigits
  have hback : Int64.ofNat k = n := by
    have hof : Int64.ofInt n.toInt = n := Int64.ofInt_toInt n
    rw [hk] at hof
    exact hof
  have hmagnitude : parseMagnitude false (itoa n) = (n, true) := by
    rw [parseMagnitude, hread]
    dsimp only
    rw [if_neg (fun hrest => hrest.1 rfl), if_neg Bool.false_ne_true, if_pos hlt, hback]
  obtain ⟨c, cs, hcs⟩ := exists_cons_of_ne_nil (digits_itoa h).1
  have hdigit : c.isDigit = true := (digits_itoa h).2 c (by rw [hcs]; exact mem_cons_self)
  rw [hcs] at hmagnitude ⊢
  rw [parseInt, hmagnitude]
  · rintro cs' hminus
    rw [(cons.inj hminus).1] at hdigit
    exact absurd hdigit (by decide)
  · rintro cs' hplus
    rw [(cons.inj hplus).1] at hdigit
    exact absurd hdigit (by decide)

/-! ## The list of sessions -/

theorem exists_mapM_iff {α β : Type} {f : α → Option β} {as : List α} :
    (∃ bs, as.mapM f = some bs) ↔ ∀ a ∈ as, (f a).isSome = true := by
  induction as with
  | nil => exact ⟨fun _ => forall_mem_nil _, fun _ => ⟨[], rfl⟩⟩
  | cons a as ih =>
    rw [forall_mem_cons, ← ih, mapM_cons]
    cases f a with
    | none => simp
    | some b => cases as.mapM f <;> simp

theorem mem_of_mapM {α β : Type} {f : α → Option β} {as : List α} {bs : List β} {b : β}
    (h : as.mapM f = some bs) : b ∈ bs ↔ ∃ a ∈ as, f a = some b := by
  induction as generalizing bs with
  | nil =>
    cases h
    simp
  | cons a as ih =>
    rw [mapM_cons] at h
    obtain ⟨b', hb', h⟩ := bind_eq_some_iff.1 h
    obtain ⟨bs', hbs', h⟩ := bind_eq_some_iff.1 h
    cases h
    simp [ih hbs', hb', eq_comm]

theorem join_injective (dir : List Char) : Function.Injective (join dir) := by
  intro a b h
  exact (cons.inj (append_cancel_left h)).2

def Readable (name : List Char) : Prop := (search re name).isSome = true

instance (name : List Char) : Decidable (Readable name) :=
  inferInstanceAs (Decidable (_ = true))

theorem groups_of_search {cs : List (List Char)} (h : search re name = some cs) :
    ∃ u cmd id pid ts r, cs = [cmd, id, pid, ts] ∧ cmd ≠ [] ∧ '_' ∉ cmd ∧ Digits id ∧
      Digits pid ∧ Digits ts ∧
      name = u ++ (cmd ++ '_' :: (id ++ '_' :: (pid ++ '_' :: (ts ++ r)))) := by
  obtain ⟨u, v, r, rfl, hmem⟩ := ways_of_search h
  obtain ⟨cmd, id, pid, ts, rfl, hne, hbar, hid, hpid, hts, rfl⟩ := mem_ways_re.1 hmem
  exact ⟨u, cmd, id, pid, ts, r, rfl, hne, hbar, hid, hpid, hts, rfl⟩

theorem readable_iff (histDir name : List Char) :
    (readSession histDir name).isSome = true ↔ Readable name := by
  rw [Readable, readSession]
  cases h : search re name with
  | none => exact Iff.rfl
  | some cs =>
    obtain ⟨-, cmd, id, pid, ts, -, rfl, -⟩ := groups_of_search h
    exact Iff.rfl

theorem workDir_of_readSession {s : Session} (h : readSession histDir name = some s) :
    s.workDir = join histDir name := by
  rw [readSession] at h
  split at h
  · rw [← some.inj h]
  · cases h

def Recovers (histDir : List Char) (home : Home) (name cmd : List Char) (id pid ts : Int64) :
    Prop :=
  ∃ ss, getSessions histDir home = some ss ∧
    (∃ s ∈ ss, s.workDir = join histDir name) ∧
    ∀ s ∈ ss, s.workDir = join histDir name →
      s.cmd = cmd ∧ s.id = id ∧ s.pid = pid ∧ s.timestamp = ts

theorem mem_getSessions {ss : List Session} {s : Session} (h : getSessions histDir home = some ss) :
    s ∈ ss ↔ ∃ name ∈ home.history, readSession histDir name = some s := by
  obtain ⟨ss', hss, rfl⟩ := map_eq_some_iff.1 h
  rw [mem_mergeSort, mem_of_mapM hss]

theorem exists_getSessions_iff (histDir : List Char) (home : Home) :
    (∃ ss, getSessions histDir home = some ss) ↔ ∀ name ∈ home.history, Readable name := by
  have hmapM : (∃ ss, home.history.mapM (readSession histDir) = some ss) ↔
      ∀ name ∈ home.history, Readable name := by
    rw [exists_mapM_iff]
    exact forall₂_congr fun name _ => readable_iff histDir name
  rw [← hmapM, getSessions]
  cases home.history.mapM (readSession histDir) <;> simp

/-- **What is recovered from a directory** is what its own name gives, if the others can be
read. -/
theorem recovers_iff (hname : name ∈ home.history) (cmd : List Char) (id pid ts : Int64) :
    Recovers histDir home name cmd id pid ts ↔ (∀ other ∈ home.history, Readable other) ∧
        ∃ s, readSession histDir name = some s ∧
          s.cmd = cmd ∧ s.id = id ∧ s.pid = pid ∧ s.timestamp = ts := by
  constructor
  · rintro ⟨ss, hss, -, hall⟩
    have hreadable := (exists_getSessions_iff histDir home).1 ⟨ss, hss⟩
    obtain ⟨s, hs⟩ :=
      isSome_iff_exists.1 ((readable_iff histDir name).2 (hreadable name hname))
    refine ⟨hreadable, s, hs, hall s ?_ (workDir_of_readSession hs)⟩
    exact (mem_getSessions hss).2 ⟨name, hname, hs⟩
  · rintro ⟨hreadable, s, hs, hfields⟩
    obtain ⟨ss, hss⟩ := (exists_getSessions_iff histDir home).2 hreadable
    refine ⟨ss, hss, ⟨s, ?_, workDir_of_readSession hs⟩, ?_⟩
    · exact (mem_getSessions hss).2 ⟨name, hname, hs⟩
    · intro s' hs' hdir
      obtain ⟨name', -, hread⟩ := (mem_getSessions hss).1 hs'
      rw [workDir_of_readSession hread] at hdir
      rw [join_injective histDir hdir, hs] at hread
      rw [← some.inj hread]
      exact hfields

/-! ## The name of a session -/

theorem readSession_dirName_iff (histDir : List Char) (hcmd : cmd ≠ []) (id pid ts : Int64) :
    (∃ s, readSession histDir (dirName cmd id pid ts) = some s ∧
        s.cmd = cmd ∧ s.id = id ∧ s.pid = pid ∧ s.timestamp = ts) ↔
      '_' ∉ cmd ∧ 0 ≤ id.toInt ∧ 0 ≤ pid.toInt ∧ 0 ≤ ts.toInt := by
  constructor
  · rintro ⟨s, hs, hfields, -⟩
    rw [readSession] at hs
    split at hs
    · next cmd' id' pid' ts' hsearch =>
      obtain ⟨u, c, i, p, t, r, hcs, -, hbar, hi, hp, ht, hname⟩ := groups_of_search hsearch
      obtain ⟨rfl, rfl, rfl, rfl, -⟩ : cmd' = c ∧ id' = i ∧ pid' = p ∧ ts' = t ∧ True := by
        simpa using hcs
      obtain rfl : cmd' = cmd := by
        rw [← hfields, ← some.inj hs]
      -- there are three underscores, so nothing with one stands before the command
      have hcount := congrArg (count '_') hname
      simp only [dirName, count_append, count_cons_self,
        count_eq_zero.2 hbar, count_eq_zero.2 (underscore_notMem_itoa id),
        count_eq_zero.2 (underscore_notMem_itoa pid),
        count_eq_zero.2 (underscore_notMem_itoa ts),
        count_eq_zero.2 hi.underscore_notMem, count_eq_zero.2 hp.underscore_notMem,
        count_eq_zero.2 ht.underscore_notMem] at hcount
      have hu : '_' ∉ u := count_eq_zero.1 (by omega)
      have hfront : '_' ∉ u ++ cmd' := fun hmem => (mem_append.1 hmem).elim hu hbar
      rw [dirName, ← append_assoc] at hname
      obtain ⟨-, hname⟩ := cut_unique hbar hfront hname
      obtain ⟨hid, hname⟩ :=
        cut_unique (underscore_notMem_itoa id) hi.underscore_notMem hname
      obtain ⟨hpid, hts⟩ :=
        cut_unique (underscore_notMem_itoa pid) hp.underscore_notMem hname
      rw [← append_nil id'] at hid
      rw [← append_nil pid'] at hpid
      exact ⟨hbar, nonneg_of_digits hi hid, nonneg_of_digits hp hpid, nonneg_of_digits ht hts⟩
    · cases hs
  · rintro ⟨hbar, hid, hpid, hts⟩
    have hsearch := search_re hcmd hbar (digits_itoa hid) (digits_itoa hpid) (digits_itoa hts)
    rw [readSession, dirName, hsearch]
    refine ⟨_, rfl, rfl, ?_, ?_, ?_⟩
    · exact congrArg Prod.fst (parseInt_itoa hid)
    · exact congrArg Prod.fst (parseInt_itoa hpid)
    · exact congrArg Prod.fst (parseInt_itoa hts)

/-! ## The round trip -/

def FileName (name : List Char) : Prop := name ≠ [] ∧ '/' ∉ name ∧ '\x00' ∉ name

instance (name : List Char) : Decidable (FileName name) :=
  inferInstanceAs (Decidable (_ ∧ _ ∧ _))

theorem dropWhile_dirName (h : FileName cmd) (id pid ts : Int64) :
    (dirName cmd id pid ts).dropWhile (· = '/') = dirName cmd id pid ts := by
  obtain ⟨c, cs, rfl⟩ := exists_cons_of_ne_nil h.1
  have hc : c ≠ '/' := by
    rintro rfl
    exact h.2.1 mem_cons_self
  rw [dirName, cons_append, dropWhile_cons, if_neg (by simpa using hc)]

theorem createWorkDir_cases (existing : Bool) {start : Start} (hcmd : FileName start.cmd)
    (now : Int64) (home : Home) : (∃ home', createWorkDir existing start now home = (home', none) ∧
      home'.history = home.history ∧
      (home'.count = home.count ∨ home'.count = some (itoa (nextSessionID home)))) ∨
    (∃ home', createWorkDir existing start now home =
        (home', some (dirName start.cmd (nextSessionID home) start.pid now)) ∧
      home'.count = some (itoa (nextSessionID home)) ∧
      ∀ other, other ∈ home'.history ↔
        other = dirName start.cmd (nextSessionID home) start.pid now ∨ other ∈ home.history) := by
  rw [createWorkDir]
  split_ifs
  · exact .inl ⟨home, rfl, rfl, .inl rfl⟩
  · dsimp only [getSessionID]
    rw [dropWhile_dirName hcmd]
    cases start with
    | run path pid =>
      dsimp only
      split_ifs
      · exact .inr ⟨_, rfl, rfl, fun other => mem_cons⟩
      · exact .inl ⟨_, rfl, rfl, .inr rfl⟩
    | attach pid status =>
      dsimp only
      split_ifs
      · exact .inr ⟨_, rfl, rfl, fun other => mem_insert_iff⟩
      · exact .inl ⟨_, rfl, rfl, .inr rfl⟩

/-- **A session directory is read back.** For every home directory, whatever its history holds,
and every session made in it. -/
theorem session_round_trip (histDir : List Char) (existing : Bool) (start : Start) (now : Int64)
    (home home' : Home) (name : List Char) (hcmd : FileName start.cmd)
    (h : createWorkDir existing start now home = (home', some name)) :
    Recovers histDir home' name start.cmd (nextSessionID home) start.pid now ↔
      '_' ∉ start.cmd ∧ 0 ≤ (nextSessionID home).toInt ∧ 0 ≤ start.pid.toInt ∧
        0 ≤ now.toInt ∧ ∀ other ∈ home.history, Readable other := by
  obtain ⟨rfl, hhistory⟩ : name = dirName start.cmd (nextSessionID home) start.pid now ∧
      ∀ other, other ∈ home'.history ↔ other = name ∨ other ∈ home.history := by
    rcases createWorkDir_cases existing hcmd now home with
      ⟨home₁, hnone, -⟩ | ⟨home₁, hsome, -, hhistory⟩
    · rw [hnone] at h
      cases h
    · rw [hsome] at h
      cases h
      exact ⟨rfl, hhistory⟩
  rw [recovers_iff ((hhistory _).2 (.inl rfl)), readSession_dirName_iff histDir hcmd.1]
  constructor
  · rintro ⟨hall, hbar, hid, hpid, hts⟩
    exact ⟨hbar, hid, hpid, hts, fun other hother => hall other ((hhistory other).2 (.inr hother))⟩
  · rintro ⟨hbar, hid, hpid, hts, hall⟩
    refine ⟨fun other hother => ?_, hbar, hid, hpid, hts⟩
    rcases (hhistory other).1 hother with rfl | hother
    · obtain ⟨s, hs, -⟩ := (readSession_dirName_iff histDir hcmd.1 ..).2 ⟨hbar, hid, hpid, hts⟩
      exact (readable_iff histDir _).1 (isSome_iff_exists.2 ⟨s, hs⟩)
    · exact hall other hother

def Home.fresh : Home := ⟨none, [], []⟩

theorem session_round_trip_first : Recovers "history".toList
      (createWorkDir false (.run "/bin/top".toList 42) 7 Home.fresh).1 "top_1_42_7".toList
      "top".toList 1 42 7 := by
  refine (session_round_trip "history".toList false (.run "/bin/top".toList 42) 7 Home.fresh _
    "top_1_42_7".toList (by decide +kernel) (Prod.ext rfl (by decide +kernel))).2 ?_
  exact ⟨by decide +kernel, by decide, by decide, by decide, fun _ h => by cases h⟩

/-- Of a command with an underscore only the last part is read. -/
theorem session_round_trip_underscore :
    (createWorkDir false (.run "/bin/my_app".toList 42) 7 Home.fresh).2 =
        some "my_app_1_42_7".toList ∧
      (readSession "history".toList "my_app_1_42_7".toList).map Session.cmd = some "app".toList ∧
      ¬ Recovers "history".toList
        (createWorkDir false (.run "/bin/my_app".toList 42) 7 Home.fresh).1
        "my_app_1_42_7".toList "my_app".toList 1 42 7 := by
  have hread : (readSession "history".toList "my_app_1_42_7".toList).map Session.cmd =
      some "app".toList := by decide +kernel
  refine ⟨by decide +kernel, hread, fun hrecovers => ?_⟩
  have hmem : "my_app_1_42_7".toList ∈
      (createWorkDir false (.run "/bin/my_app".toList 42) 7 Home.fresh).1.history := by
    decide +kernel
  obtain ⟨-, s, hs, hcmd, -⟩ := (recovers_iff hmem ..).1 hrecovers
  rw [hs, map_some, hcmd] at hread
  exact absurd hread (by decide)

end AppView.Sessions

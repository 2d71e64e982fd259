import AppView.Framework.Lines

/-!
# `setup.c` of the loader: configuring services and undoing it

`setupService` appends a line to the configuration file of an InitD or OpenRc service;
`setupUnservice` goes over the files of all managers and takes out the lines that mention the
library. **`service_round_trip`**: the two together give back the file exactly under conditions
that the callers do not ensure: the file ends with a line end, the line fits the buffer of
`removeAppViewCfgFile`, the file is one that is looked at again, and `/tmp` is on its file
system. **`remove_lines`** says which lines are left in any file, **`systemd_unit`** what is left of
a unit, and **`version_accepted`** which versions the loader and the library take.
-/

namespace AppView.Service

open AppView.Framework List

abbrev Text := List Char

/-! ## Lines of a file -/

def libraryName : Text := "/libappview.so".toList

def fgets : ℕ → Text → Text
  | 0, _ => []
  | _, [] => []
  | n + 1, c :: cs => if c = '\n' then [c] else c :: fgets n cs

def mentions (buf : Text) : Bool := libraryName <:+: buf.takeWhile (· ≠ '\x00')

def anyPiece : ℕ → Text → Bool
  | 0, _ => false
  | _, [] => false
  | fuel + 1, text =>
    mentions (fgets 4095 text) || anyPiece fuel (text.drop (fgets 4095 text).length)

def isCfgFileConfigured (text : Text) : Bool := anyPiece text.length text

def removeLoop : ℕ → Bool → Text → Text × ℕ
  | 0, _, _ => ([], 0)
  | _, _, [] => ([], 0)
  | fuel + 1, newline, c :: cs =>
    if c = '\n' then
      let r := removeLoop fuel true cs
      (c :: r.1, r.2)
    else if newline && mentions (fgets 127 (c :: cs)) then
      let r := removeLoop fuel true ((c :: cs).drop (fgets 127 (c :: cs)).length)
      (r.1, r.2 + 1)
    else
      let r := removeLoop fuel false cs
      (c :: r.1, r.2)

def removeAppViewLines (text : Text) : Text × ℕ := removeLoop text.length true text

/-- `removeAppViewCfgFile` on a file with this text: its result, and the text of the file
afterwards, if there is a file. The arguments say which calls succeed. -/
def removeAppViewCfgFile (fopen remove rename : Bool) (text : Text) : ℤ × Option Text :=
  if fopen = false ∨ remove = false then (-1, some text)
  else if rename = false then (-1, none)
  else ((removeAppViewLines text).2, some (removeAppViewLines text).1)

/-! ## The library -/

def isVersionChar (c : Char) : Bool :=
  c.isDigit || c = '.' || c = '-' || c = 't' || c = 'c' || c = 'r'

/-- The loop of the two functions over the characters from index `i` on. -/
def versionLoop (version : Text) : ℕ → Text → Text
  | _, [] => version
  | i, c :: cs =>
    if isVersionChar c = false then "dev".toList
    else if (i = 0 ∨ i = version.length) ∧ c.isDigit = false then "dev".toList
    else versionLoop version (i + 1) cs

/-- `libverNormalizedVersion` of the loader, `NULL` apart. -/
def libverNormalizedVersion (version : Text) : Text :=
  match version with
  | 'v' :: version => versionLoop version 0 version
  | _ => "dev".toList

/-- `libVersion` of the library, which has the same loop. -/
def libVersion (version : Text) : Text :=
  match version with
  | 'v' :: version => versionLoop version 0 version
  | _ => "dev".toList

def libPath : Text := "/usr/lib/libappview.so".toList

def versionedPath (loaderVersion : Text) : Text :=
  "/tmp/appview/".toList ++ loaderVersion ++ libraryName

/-! ## The host -/

abbrev Directory := List (String × Text)

def Directory.write (d : Directory) (name : String) (text : Text) : Directory :=
  (name, text) :: d.filter fun file => file.1 ≠ name

inductive Manager where
  | openRc | systemD | initD
  deriving DecidableEq

inductive ServiceStatus where
  | success | errorOther | notInstalled
  deriving DecidableEq

structure Host where
  /-- which of `/etc/rc.conf`, `/etc/systemd` and `/etc/init.d` there are -/
  hasOpenRc : Bool
  hasSystemD : Bool
  hasInitD : Bool
  /-- the files `env.conf` of the services, in the order they are visited -/
  envConf : List Text
  sysconfig : Directory
  confD : Directory
  initD : Directory
  /-- can a file be renamed from `/tmp` to these directories? -/
  renameOk : Bool
  /-- `APPVIEW_VER` -/
  version : Text
  /-- can the library be read in `/usr/lib`, and in the directory of the version? -/
  accessLib : Bool
  accessVersioned : Bool

namespace Host

def manager (h : Host) : Option Manager :=
  if h.hasOpenRc then some .openRc
  else if h.hasSystemD then some .systemD
  else if h.hasInitD then some .initD
  else none

def libappviewPath (h : Host) : Option Text :=
  let loaderVersion := libverNormalizedVersion h.version
  if h.accessLib = false ∨ loaderVersion = "dev".toList then
    if h.accessVersioned = true ∧ loaderVersion.length ≤ 255 then
      some (versionedPath loaderVersion)
    else none
  else some libPath

/-! ## Configuring -/

def cfgEntry (manager : Manager) (path : Text) : Text :=
  match manager with
  | .openRc => "export LD_PRELOAD=".toList ++ path ++ ['\n']
  | _ => "LD_PRELOAD=".toList ++ path ++ ['\n']

def cfgDir (h : Host) : Manager → Directory
  | .openRc => h.confD
  | _ => h.sysconfig

def setCfgDir (h : Host) (manager : Manager) (d : Directory) : Host :=
  match manager with
  | .openRc => { h with confD := d }
  | _ => { h with sysconfig := d }

/-- `setupService`; what it does for SystemD is a parameter. -/
def setupService (systemD : Host → String → ServiceStatus × Host) (h : Host)
    (serviceName : String) : ServiceStatus × Host :=
  match h.manager with
  | none => (.errorOther, h)
  | some .systemD => systemD h serviceName
  | some manager =>
    if (h.initD.lookup serviceName).isNone then (.notInstalled, h)
    else
      match h.libappviewPath with
      | none => (.errorOther, h)
      | some path =>
        let d := h.cfgDir manager
        match d.lookup serviceName with
        | none =>
          (.success, h.setCfgDir manager (d.write serviceName (cfgEntry manager path)))
        | some text =>
          if isCfgFileConfigured text then (.success, h)
          else
            (.success, h.setCfgDir manager
              (d.write serviceName (text ++ cfgEntry manager path)))

/-! ## Undoing it -/

def removeCfg (h : Host) (text : Text) : Option Text × Bool :=
  if isCfgFileConfigured text then
    if h.renameOk then
      let r := removeAppViewLines text
      (some r.1, r.2 > 0)
    else (none, false)
  else (some text, true)

def removeCfgs (h : Host) (d : Directory) : Directory × Bool :=
  (d.filterMap fun file => (h.removeCfg file.2).1.map fun text => (file.1, text),
    d.all fun file => (h.removeCfg file.2).2)

def setupUnservice (h : Host) : ServiceStatus × Host :=
  let h' := { h with envConf := h.envConf.filterMap fun text => (h.removeCfg text).1 }
  if h.envConf.all fun text => (h.removeCfg text).2 then
    let r := h.removeCfgs h.sysconfig
    let h' := { h' with sysconfig := r.1 }
    if r.2 then
      let r := h.removeCfgs h.initD
      (if r.2 then .success else .errorOther, { h' with initD := r.1 })
    else (.errorOther, h')
  else (.errorOther, h')

end Host

/-! ## Pieces of lines -/

theorem fgets_isPrefix (n : ℕ) (text : Text) : fgets n text <+: text := by
  induction n generalizing text with
  | zero => exact nil_prefix
  | succ n ih =>
    cases text with
    | nil => exact nil_prefix
    | cons c cs =>
      rw [fgets]
      split_ifs
      · exact cons_prefix_cons.2 ⟨rfl, nil_prefix⟩
      · exact cons_prefix_cons.2 ⟨rfl, ih cs⟩

variable {n fuel : ℕ} {line text path : Text} {h : Host}

theorem length_fgets_pos (c : Char) (cs : Text) (hn : 0 < n) : 0 < (fgets n (c :: cs)).length := by
  cases n with
  | zero => omega
  | succ n =>
    rw [fgets]
    split_ifs <;> exact Nat.succ_pos _

theorem fgets_line_append (hline : '\n' ∉ line) (n : ℕ) (more : Text) :
    fgets n (line ++ more) = line.take n ++ fgets (n - line.length) more := by
  induction line generalizing n with
  | nil => rw [take_nil, length_nil, Nat.sub_zero, nil_append, nil_append]
  | cons c line ih =>
    cases n with
    | zero => rw [length_cons, Nat.zero_sub, take_zero, fgets, fgets, append_nil]
    | succ n =>
      rw [mem_cons, not_or] at hline
      rw [cons_append, fgets, if_neg (Ne.symm hline.1), ih hline.2, take_succ_cons, length_cons,
        Nat.succ_sub_succ, cons_append]

theorem fgets_line (hline : '\n' ∉ line) (hn : line.length < n) :
    fgets n (line ++ ['\n']) = line ++ ['\n'] := by
  obtain ⟨k, rfl⟩ := Nat.exists_eq_add_of_lt hn
  rw [fgets_line_append hline, take_of_length_le (by omega),
    show line.length + k + 1 - line.length = k + 1 by omega, fgets, if_pos rfl]

theorem fgets_append (h : Complete '\n' text) (hne : text ≠ []) (n : ℕ) (more : Text) :
    fgets n (text ++ more) = fgets n text := by
  induction text generalizing n with
  | nil => exact absurd rfl hne
  | cons c cs ih =>
    cases n with
    | zero => rfl
    | succ n =>
      rw [cons_append, fgets, fgets]
      split_ifs with hc
      · rfl
      · rw [ih h.tail (h.ne_nil hc)]

variable {buf head : Text}

theorem mentions_of_clean (htext : ¬ libraryName <:+: text) (hbuf : buf <:+: text) :
    mentions buf = false := by
  refine decide_eq_false fun h => htext ?_
  have hfront := takeWhile_prefix (l := buf) (· ≠ '\x00')
  exact (h.trans hfront.isInfix).trans hbuf

theorem mentions_of_noNul (hnul : '\x00' ∉ buf) (h : libraryName <:+: buf) :
    mentions buf = true := by
  have hall : buf.takeWhile (· ≠ '\x00') = buf := by
    rw [takeWhile_eq_self_iff]
    intro c hc
    exact decide_eq_true fun h => hnul (h ▸ hc)
  rw [mentions, hall]
  exact decide_eq_true h

/-! ## Is a file configured? -/

theorem anyPiece_cons (fuel : ℕ) (c : Char) (cs : Text) :
    anyPiece (fuel + 1) (c :: cs) = (mentions (fgets 4095 (c :: cs)) ||
      anyPiece fuel ((c :: cs).drop (fgets 4095 (c :: cs)).length)) :=
  rfl

theorem anyPiece_of_not_infix (h : ¬ libraryName <:+: text) (fuel : ℕ) :
    anyPiece fuel text = false := by
  induction fuel generalizing text with
  | zero => rfl
  | succ fuel ih =>
    cases text with
    | nil => rfl
    | cons c cs =>
      rw [anyPiece_cons, mentions_of_clean h (fgets_isPrefix 4095 _).isInfix, Bool.false_or]
      exact ih fun hdrop => h (hdrop.trans (drop_suffix _ _).isInfix)

theorem anyPiece_append {entry : Text} (htext : Complete '\n' text)
    (hentry : mentions (fgets 4095 entry) = true) (hne : entry ≠ [])
    (hfuel : (text ++ entry).length ≤ fuel) : anyPiece fuel (text ++ entry) = true := by
  induction fuel generalizing text with
  | zero =>
    rw [Nat.le_zero, length_eq_zero_iff, append_eq_nil_iff] at hfuel
    exact absurd hfuel.2 hne
  | succ fuel ih =>
    cases text with
    | nil =>
      cases entry with
      | nil => exact absurd rfl hne
      | cons c cs => rw [nil_append, anyPiece_cons, hentry, Bool.true_or]
    | cons c cs =>
      have hpiece := fgets_append htext (cons_ne_nil c cs) 4095 entry
      have hlen : (fgets 4095 (c :: cs)).length ≤ (c :: cs).length :=
        (fgets_isPrefix 4095 (c :: cs)).length_le
      have hpos := length_fgets_pos c cs (show 0 < 4095 by decide)
      rw [cons_append] at hpiece ⊢
      rw [anyPiece_cons, hpiece, ← cons_append, drop_append_of_le_length hlen]
      rw [ih (htext.drop _), Bool.or_true]
      rw [length_append] at hfuel ⊢
      rw [length_drop]
      omega

/-! ## Leaving out lines -/

theorem removeLoop_cons (fuel : ℕ) (newline : Bool) (c : Char) (cs : Text) :
    removeLoop (fuel + 1) newline (c :: cs) =
      if c = '\n' then
        (c :: (removeLoop fuel true cs).1, (removeLoop fuel true cs).2)
      else if (newline && mentions (fgets 127 (c :: cs))) = true then
        ((removeLoop fuel true ((c :: cs).drop (fgets 127 (c :: cs)).length)).1,
          (removeLoop fuel true ((c :: cs).drop (fgets 127 (c :: cs)).length)).2 + 1)
      else (c :: (removeLoop fuel false cs).1, (removeLoop fuel false cs).2) :=
  rfl

theorem removeLoop_nil (fuel : ℕ) (newline : Bool) : removeLoop fuel newline [] = ([], 0) := by
  cases fuel <;> rfl

theorem removeLoop_append (htext : Complete '\n' text) (hclean : ¬ libraryName <:+: text)
    {newline : Bool} (hnewline : text = [] → newline = true) (fuel : ℕ) (more : Text) :
    removeLoop (text.length + fuel) newline (text ++ more) =
      (text ++ (removeLoop fuel true more).1, (removeLoop fuel true more).2) := by
  induction text generalizing newline with
  | nil => rw [hnewline rfl, length_nil, Nat.zero_add, nil_append, nil_append]
  | cons c cs ih =>
    have hcs : ¬ libraryName <:+: cs := fun h => hclean (h.trans (suffix_cons c cs).isInfix)
    rw [length_cons, Nat.succ_add, cons_append, removeLoop_cons, cons_append]
    by_cases hc : c = '\n'
    · rw [if_pos hc, ih htext.tail hcs fun _ => rfl]
    · -- no more than this line is read, and it does not mention the library
      have hpiece := fgets_append htext (cons_ne_nil c cs) 127 more
      have hmention := mentions_of_clean hclean (fgets_isPrefix 127 (c :: cs)).isInfix
      rw [← hpiece, cons_append] at hmention
      rw [if_neg hc, hmention, Bool.and_false, if_neg Bool.false_ne_true]
      rw [ih htext.tail hcs fun h => absurd h (htext.ne_nil hc)]

theorem head?_ne (hline : '\n' ∉ line) (hmention : libraryName <:+: line) (more : Text) :
    (line ++ more).head? ≠ some '\n' := by
  cases line with
  | nil => exact absurd hmention (by decide)
  | cons c cs => exact fun hc => hline (Option.some.inj hc ▸ mem_cons_self)

theorem removeLoop_piece {piece more : Text} (hpiece : fgets 127 (piece ++ more) = piece)
    (hmention : mentions piece = true) (hline : piece.head? ≠ some '\n') (hfuel : 0 < fuel) :
    removeLoop fuel true (piece ++ more) =
      ((removeLoop (fuel - 1) true more).1, (removeLoop (fuel - 1) true more).2 + 1) := by
  obtain ⟨fuel, rfl⟩ := Nat.exists_eq_succ_of_ne_zero hfuel.ne'
  cases piece with
  | nil => exact absurd hmention (by decide)
  | cons c cs =>
    have hdrop := @drop_left _ (c :: cs) more
    rw [cons_append] at hpiece hdrop ⊢
    rw [removeLoop_cons, if_neg fun hc => hline (congrArg some hc), hpiece, hmention,
      Bool.and_true, if_pos rfl, hdrop]
    rfl

theorem removeLoop_copies (c : Char) (cs : Text) (fuel : ℕ) :
    (removeLoop (fuel + 1) false (c :: cs)).1 ≠ [] := by
  rw [removeLoop_cons, Bool.false_and, if_neg Bool.false_ne_true]
  split_ifs <;> exact cons_ne_nil _ _

theorem removeLoop_complete (htext : Complete '\n' text) (hfuel : text.length ≤ fuel)
    (newline : Bool) : Complete '\n' (removeLoop fuel newline text).1 := by
  have hcons : ∀ {c : Char} {l : Text}, Complete '\n' l → (l = [] → c = '\n') →
      Complete '\n' (c :: l) := by
    intro c l hl hc
    cases l with
    | nil => simpa [Complete] using hc rfl
    | cons b bs => exact hl
  induction fuel generalizing text newline with
  | zero => exact fun c hc => by cases hc
  | succ fuel ih =>
    cases text with
    | nil => exact htext
    | cons c cs =>
      rw [length_cons] at hfuel
      rw [removeLoop_cons]
      split_ifs with hc hskip
      · exact hcons (ih htext.tail (by omega) true) fun _ => hc
      · have hpos := length_fgets_pos c cs (show 0 < 127 by decide)
        exact ih (htext.drop _) (by rw [length_drop, length_cons]; omega) true
      · -- the rest of a line is copied with its end
        obtain ⟨b, bs, rfl⟩ := exists_cons_of_ne_nil (htext.ne_nil hc)
        obtain ⟨fuel, rfl⟩ : ∃ k, fuel = k + 1 := Nat.exists_eq_succ_of_ne_zero (by
          rw [length_cons] at hfuel
          omega)
        exact hcons (ih htext.tail (by omega) false)
          fun hnil => absurd hnil (removeLoop_copies b bs fuel)

theorem not_infix_take (hhead : 'l' ∉ head) {m : ℕ} (hm : m < (head ++ libraryName).length) :
    ¬ libraryName <:+: (head ++ libraryName).take m := by
  rintro ⟨s, t, hst⟩
  have hsplit : s ++ (libraryName ++ (t ++ (head ++ libraryName).drop m)) =
      head ++ libraryName := by
    rw [← append_assoc, ← append_assoc, hst, take_append_drop]
  have hlen := congrArg length hsplit
  simp only [length_append, length_drop] at hlen hm
  -- the name has its only `l` behind its first character
  have hl : (head ++ libraryName)[s.length + 1]? = some 'l' := by
    rw [← hsplit, getElem?_append_right (Nat.le_add_right ..), Nat.add_sub_cancel_left]
    rfl
  rcases lt_trichotomy (s.length + 1) head.length with h | h | h
  · rw [getElem?_append_left h] at hl
    exact hhead (mem_of_getElem? hl)
  · rw [h, getElem?_append_right (Nat.le_refl _), Nat.sub_self] at hl
    exact absurd hl (by decide)
  · omega

theorem fgets_eq_take (hline : '\n' ∉ line) (hn : n ≤ line.length) (more : Text) :
    fgets n (line ++ more) = line.take n := by
  rw [fgets_line_append hline, Nat.sub_eq_zero_of_le hn, fgets, append_nil]

theorem removeLoop_long (hhead : 'l' ∉ head) (hline : '\n' ∉ head ++ libraryName)
    (hlen : 127 ≤ (head ++ libraryName).length)
    (hfuel : (head ++ libraryName ++ ['\n']).length ≤ fuel) :
    (removeLoop fuel true (head ++ libraryName ++ ['\n'])).1 ≠ [] := by
  have hpiece := fgets_eq_take hline hlen ['\n']
  have hname : libraryName <:+: head ++ libraryName := ⟨head, [], append_nil _⟩
  have hstart := head?_ne hline hname ['\n']
  rw [length_append, length_singleton] at hfuel
  by_cases hmention : mentions ((head ++ libraryName).take 127) = true
  · -- then all but the line end was read
    have hall : (head ++ libraryName).length = 127 := by
      refine Nat.le_antisymm (Nat.le_of_not_lt fun hlt => ?_) hlen
      rw [mentions_of_clean (not_infix_take hhead hlt) (infix_refl _)] at hmention
      cases hmention
    rw [take_of_length_le hall.le] at hpiece hmention
    rw [removeLoop_piece hpiece hmention (by simpa using head?_ne hline hname []) (by omega)]
    obtain ⟨k, hk⟩ : ∃ k, fuel - 1 = k + 1 := ⟨fuel - 2, by omega⟩
    rw [hk, removeLoop_cons, if_pos rfl]
    exact cons_ne_nil _ _
  · cases hwhole : head ++ libraryName ++ ['\n'] with
    | nil => simp at hwhole
    | cons c cs =>
      rw [hwhole] at hpiece hstart
      obtain ⟨k, rfl⟩ : ∃ k, fuel = k + 1 := ⟨fuel - 1, by omega⟩
      rw [removeLoop_cons, if_neg fun hc => hstart (congrArg some hc), hpiece,
        Bool.eq_false_iff.2 hmention, Bool.and_false, if_neg Bool.false_ne_true]
      exact cons_ne_nil _ _

/-! ## The line that is appended -/

def plain (c : Char) : Bool := c ≠ '\n' && c ≠ '\x00' && c ≠ 'l'

theorem versionLoop_eq (version : Text) {i : ℕ} {cs : Text}
    (hi : i + cs.length = version.length) : versionLoop version i cs =
      if cs.all isVersionChar && (i ≠ 0 || cs.head?.all Char.isDigit) then version
      else "dev".toList := by
  induction cs generalizing i with
  | nil => simp [versionLoop]
  | cons c cs ih =>
    rw [length_cons] at hi
    -- the test of the last character is never made
    have hlast : i ≠ version.length := by omega
    rw [versionLoop, ih (by omega)]
    cases hc : isVersionChar c <;> cases hd : c.isDigit <;> by_cases hzero : i = 0 <;>
      simp [hc, hd, hzero, hlast]

theorem normalized_cons (version : Text) : libverNormalizedVersion ('v' :: version) =
    if version.all isVersionChar && version.head?.all Char.isDigit then version
    else "dev".toList := by
  rw [libverNormalizedVersion, versionLoop_eq _ (Nat.zero_add _)]
  simp

theorem normalized_all {p : Char → Bool} (hchar : ∀ c, isVersionChar c = true → p c = true)
    (hdev : "dev".toList.all p = true) (version : Text) :
    (libverNormalizedVersion version).all p = true := by
  by_cases hv : ∃ rest, version = 'v' :: rest
  · obtain ⟨rest, rfl⟩ := hv
    rw [normalized_cons]
    split_ifs with hall
    · rw [all_eq_true]
      exact fun c hc => hchar c (all_eq_true.1 (Bool.and_eq_true_iff.1 hall).1 c hc)
    · exact hdev
  · rw [libverNormalizedVersion.eq_2 version fun rest h => hv ⟨rest, h⟩]
    exact hdev

theorem normalized_plain (version : Text) : (libverNormalizedVersion version).all plain = true := by
  refine normalized_all (fun c hc => ?_) rfl version
  simp only [plain, Bool.and_eq_true, decide_eq_true_eq]
  refine ⟨⟨?_, ?_⟩, ?_⟩ <;> rintro rfl <;> exact absurd hc (by decide)

theorem libappviewPath_cases (hpath : h.libappviewPath = some path) :
    path = libPath ∨ path = versionedPath (libverNormalizedVersion h.version) ∧
      (libverNormalizedVersion h.version).length ≤ 255 := by
  rw [Host.libappviewPath] at hpath
  split_ifs at hpath with _ hversioned
  · exact .inr ⟨(Option.some.inj hpath).symm, hversioned.2⟩
  · exact .inl (Option.some.inj hpath).symm

theorem cfgEntry_line (hpath : h.libappviewPath = some path) :
    ∃ head, Host.cfgEntry .initD path = head ++ libraryName ++ ['\n'] ∧
      '\n' ∉ head ++ libraryName ∧ '\x00' ∉ head ++ libraryName ++ ['\n'] ∧
      (head ++ libraryName).length < 4095 ∧
      (127 ≤ (head ++ libraryName).length → 'l' ∉ head) := by
  rcases libappviewPath_cases hpath with rfl | ⟨rfl, hlen⟩
  · exact ⟨"LD_PRELOAD=/usr/lib".toList, by decide, by decide, by decide, by decide, by decide⟩
  · have hplain := normalized_plain h.version
    have hstart : ("LD_PRELOAD=".toList ++ "/tmp/appview/".toList).all plain = true := by decide
    have hlenStart : ("LD_PRELOAD=".toList ++ "/tmp/appview/".toList).length = 24 := by decide
    have hname : libraryName.length = 14 := by decide
    have hnameChars : '\n' ∉ libraryName ∧ '\x00' ∉ libraryName := by decide
    have hentry : Host.cfgEntry .initD (versionedPath (libverNormalizedVersion h.version)) =
        "LD_PRELOAD=".toList ++ ("/tmp/appview/".toList ++ libverNormalizedVersion h.version ++
          libraryName) ++ ['\n'] := rfl
    rw [hentry]
    generalize "LD_PRELOAD=".toList = a at hstart hlenStart ⊢
    generalize "/tmp/appview/".toList = b at hstart hlenStart ⊢
    generalize libverNormalizedVersion h.version = ver at hplain hlen ⊢
    have hall : (a ++ b ++ ver).all plain = true := by rw [all_append, hstart, hplain]; rfl
    have hno : ∀ c, plain c = false → c ∉ a ++ b ++ ver := by
      intro c hc hmem
      rw [all_eq_true.1 hall c hmem] at hc
      cases hc
    refine ⟨a ++ b ++ ver, ?_, ?_, ?_, ?_, fun _ => hno 'l' rfl⟩
    · simp
    · rw [mem_append, not_or]
      exact ⟨hno '\n' rfl, hnameChars.1⟩
    · rw [mem_append, mem_append, not_or, not_or]
      exact ⟨⟨hno '\x00' rfl, hnameChars.2⟩, by decide⟩
    · rw [length_append, length_append, hlenStart, hname]
      omega

/-- **Undoing in one file.** -/
theorem removeCfg_entry_iff {h' : Host} (hpath : h'.libappviewPath = some path)
    (hclean : ¬ libraryName <:+: text) :
    (h.removeCfg (text ++ Host.cfgEntry .initD path)).1 = some text ↔
      Complete '\n' text ∧ (Host.cfgEntry .initD path).length ≤ 127 ∧ h.renameOk = true := by
  obtain ⟨head, hentry, hline, hnul, hshort, hlong⟩ := cfgEntry_line hpath
  rw [hentry]
  set entry := head ++ libraryName ++ ['\n'] with hdef
  have hentryLen : entry.length = (head ++ libraryName).length + 1 := by
    rw [hdef, length_append, length_singleton]
  have hwhole : Complete '\n' (text ++ entry) := by simp [Complete, hdef]
  have hmention : mentions entry = true := mentions_of_noNul hnul ⟨head, ['\n'], rfl⟩
  rw [Host.removeCfg]
  constructor
  · intro hsome
    split_ifs at hsome with hcfg hrename
    · have htext : (removeAppViewLines (text ++ entry)).1 = text := Option.some.inj hsome
      have hcomplete : Complete '\n' text :=
        htext ▸ removeLoop_complete hwhole (Nat.le_refl _) true
      refine ⟨hcomplete, ?_, hrename⟩
      rw [removeAppViewLines, length_append,
        removeLoop_append hcomplete hclean (fun _ => rfl)] at htext
      have hnil : (removeLoop entry.length true entry).1 = [] := append_right_eq_self.1 htext
      by_contra hlen
      have h127 : 127 ≤ (head ++ libraryName).length := by omega
      exact removeLoop_long (hlong h127) hline h127 (Nat.le_refl _) hnil
    · have hsame := congrArg length (Option.some.inj hsome)
      rw [length_append] at hsame
      omega
  · rintro ⟨hcomplete, hlen, hrename⟩
    have hpiece : fgets 4095 entry = entry := fgets_line hline hshort
    have hne : entry ≠ [] := by simp [hdef]
    have hcfg : isCfgFileConfigured (text ++ entry) = true :=
      anyPiece_append hcomplete (by rw [hpiece]; exact hmention) hne (Nat.le_refl _)
    rw [if_pos hcfg, if_pos hrename]
    have hskip := @removeLoop_piece _ entry []
      (by rw [append_nil]; exact fgets_line hline (by omega)) hmention
      (head?_ne hline ⟨head, [], append_nil _⟩ _) (length_pos_of_ne_nil hne)
    rw [append_nil, removeLoop_nil] at hskip
    rw [removeAppViewLines, length_append, removeLoop_append hcomplete hclean (fun _ => rfl),
      hskip, append_nil]

/-! ## The round trip -/

theorem lookup_write (d : Directory) (name : String) (text : Text) :
    (d.write name text).lookup name = some text := by
  rw [Directory.write, lookup_cons, beq_self_eq_true]

theorem lookup_removeCfgs (h : Host) (d : Directory) (name : String) (text : Text) :
    (h.removeCfgs (d.write name text)).1.lookup name = (h.removeCfg text).1 := by
  rw [Host.removeCfgs, Directory.write]
  cases hremove : (h.removeCfg text).1 with
  | none =>
    rw [filterMap_cons_none (by rw [hremove]; rfl), lookup_eq_none_iff]
    intro file hfile
    obtain ⟨old, hold, hmap⟩ := mem_filterMap.1 hfile
    obtain ⟨t, -, rfl⟩ := Option.map_eq_some_iff.1 hmap
    have hne := of_decide_eq_true (mem_filter.1 hold).2
    exact bne_iff_ne.2 (Ne.symm hne)
  | some new =>
    rw [filterMap_cons_some (by rw [hremove]; rfl), lookup_cons, beq_self_eq_true]

theorem confD_setupUnservice (h : Host) : h.setupUnservice.2.confD = h.confD := by
  rw [Host.setupUnservice]
  dsimp only
  split_ifs <;> rfl

theorem sysconfig_setupUnservice (h : Host) : h.setupUnservice.2.sysconfig =
      if h.envConf.all (fun text => (h.removeCfg text).2) = true then
        (h.removeCfgs h.sysconfig).1 else h.sysconfig := by
  rw [Host.setupUnservice]
  dsimp only
  split_ifs <;> rfl

structure Undoable (h : Host) (manager : Manager) (text : Text) : Prop where
  manager : manager = .initD
  complete : Complete '\n' text
  fits : ∀ path ∈ h.libappviewPath, (Host.cfgEntry .initD path).length ≤ 127
  systemD : h.envConf.all (fun text => (h.removeCfg text).2) = true
  rename : h.renameOk = true

section RoundTrip

variable (systemD : Host → String → ServiceStatus × Host) (h : Host) (serviceName : String)
  (manager : Manager) (text : Text) (hmanager : h.manager = some manager) (hne : manager ≠ .systemD)
  (hfile : (h.cfgDir manager).lookup serviceName = some text) (hclean : ¬ libraryName <:+: text)
  (hok : (h.setupService systemD serviceName).1 = .success)

include hmanager hne hfile hclean hok

theorem setupService_eq :
    ∃ path, h.libappviewPath = some path ∧ (h.setupService systemD serviceName).2 =
      h.setCfgDir manager
        ((h.cfgDir manager).write serviceName (text ++ Host.cfgEntry manager path)) := by
  have hcfg : isCfgFileConfigured text = false := anyPiece_of_not_infix hclean _
  unfold Host.setupService at hok ⊢
  rw [hmanager] at hok ⊢
  cases manager with
  | systemD => exact absurd rfl hne
  | openRc | initD =>
    dsimp only at hok ⊢
    by_cases hinstalled : (h.initD.lookup serviceName).isNone = true
    · rw [if_pos hinstalled] at hok
      cases hok
    · rw [if_neg hinstalled] at hok ⊢
      cases hpath : h.libappviewPath with
      | none =>
        rw [hpath] at hok
        cases hok
      | some path =>
        refine ⟨path, rfl, ?_⟩
        rw [hfile]
        dsimp only
        rw [hcfg, if_neg Bool.false_ne_true]

/-- **Configuring a service and undoing it** gives back the file exactly if it is `Undoable`. -/
theorem service_round_trip :
    ((h.setupService systemD serviceName).2.setupUnservice.2.cfgDir manager).lookup serviceName =
      some text ↔ Undoable h manager text := by
  obtain ⟨path, hpath, hsetup⟩ := setupService_eq _ _ _ _ _ hmanager hne hfile hclean hok
  rw [hsetup]
  -- the file as it was configured
  have hconfigured : ∀ entry : Text, entry ≠ [] → some (text ++ entry) ≠ some text := by
    intro entry hentry h
    exact hentry (append_right_eq_self.1 (Option.some.inj h))
  have hentryNe : Host.cfgEntry manager path ≠ [] := by
    cases manager <;> exact append_ne_nil_of_right_ne_nil _ (cons_ne_nil _ _)
  cases manager with
  | systemD => exact absurd rfl hne
  | openRc =>
    have hlookup : ((h.setCfgDir .openRc ((h.cfgDir .openRc).write serviceName
        (text ++ Host.cfgEntry .openRc path))).setupUnservice.2.cfgDir .openRc).lookup
        serviceName = some (text ++ Host.cfgEntry .openRc path) := by
      -- no pass looks at this directory
      rw [Host.cfgDir, confD_setupUnservice]
      exact lookup_write ..
    rw [hlookup]
    exact ⟨fun h => absurd h (hconfigured _ hentryNe), fun h => by cases h.manager⟩
  | initD =>
    have hone := removeCfg_entry_iff (h := h) hpath hclean
    have hfits : (∀ p ∈ h.libappviewPath, (Host.cfgEntry .initD p).length ≤ 127) ↔
        (Host.cfgEntry .initD path).length ≤ 127 := by
      rw [hpath]
      exact ⟨fun h => h path rfl, fun h p hp => Option.some.inj hp ▸ h⟩
    have hlookup : ((h.setCfgDir .initD ((h.cfgDir .initD).write serviceName
        (text ++ Host.cfgEntry .initD path))).setupUnservice.2.cfgDir .initD).lookup serviceName =
        if h.envConf.all (fun text => (h.removeCfg text).2) = true then
          (h.removeCfg (text ++ Host.cfgEntry .initD path)).1
        else some (text ++ Host.cfgEntry .initD path) := by
      have hsysconfig := sysconfig_setupUnservice (h.setCfgDir .initD
        ((h.cfgDir .initD).write serviceName (text ++ Host.cfgEntry .initD path)))
      refine (congrArg (lookup serviceName) hsysconfig).trans ?_
      rw [← lookup_removeCfgs h (h.cfgDir .initD) serviceName, apply_ite (lookup serviceName)]
      exact congrArg _ (lookup_write ..)
    rw [hlookup]
    split_ifs with hsystemD
    · rw [hone]
      constructor
      · rintro ⟨hcomplete, hlen, hrename⟩
        exact ⟨rfl, hcomplete, hfits.2 hlen, hsystemD, hrename⟩
      · intro hundo
        exact ⟨hundo.complete, hfits.1 hundo.fits, hundo.rename⟩
    · exact ⟨fun h => absurd h (hconfigured _ hentryNe), fun h => absurd h.systemD hsystemD⟩

end RoundTrip

def exampleHost (manager : Manager) (text : Text) (renameOk : Bool) : Host where
  hasOpenRc := manager = .openRc
  hasSystemD := manager = .systemD
  hasInitD := manager = .initD
  envConf := []
  sysconfig := [("httpd", text)]
  confD := [("httpd", text)]
  initD := [("httpd", [])]
  renameOk := renameOk
  version := "v1.0.0".toList
  accessLib := true
  accessVersioned := false

def afterBoth (manager : Manager) (text : Text) (renameOk : Bool) : Option Text :=
  (((exampleHost manager text renameOk).setupService (fun h _ => (.errorOther, h))
    "httpd").2.setupUnservice.2.cfgDir manager).lookup "httpd"

theorem service_round_trip_httpd : ¬ libraryName <:+: "A=1\n".toList ∧
      afterBoth .initD "A=1\n".toList true = some "A=1\n".toList := by
  refine ⟨by decide +kernel, ?_⟩
  refine (service_round_trip _ (exampleHost .initD "A=1\n".toList true) "httpd" .initD
    "A=1\n".toList (by decide +kernel) (by decide) (by decide +kernel) (by decide +kernel)
    (by decide +kernel)).2 ⟨rfl, by decide +kernel, ?_, by decide +kernel, rfl⟩
  intro path hpath
  have hlib : (exampleHost .initD "A=1\n".toList true).libappviewPath = some libPath := by
    decide +kernel
  rw [hlib] at hpath
  rw [← Option.some.inj hpath]
  decide +kernel

/-- Without a line end the last line is lost; the file of an OpenRc service stays configured;
and from another file system the file is lost. -/
theorem service_round_trip_lost : afterBoth .initD "A=1\nB=2".toList true = some "A=1\n".toList ∧
      afterBoth .openRc "A=1\n".toList true =
        some "A=1\nexport LD_PRELOAD=/usr/lib/libappview.so\n".toList ∧
      afterBoth .initD "A=1\n".toList false = none := by
  decide +kernel

/-! ## The lines that are left -/

theorem infix_line : libraryName <:+: line ++ ['\n'] ↔ libraryName <:+: line := by
  rw [infix_concat_iff, or_iff_right]
  rintro ⟨s, hs⟩
  have hlast := congrArg getLast? hs
  rw [getLast?_concat, getLast?_append_of_ne_nil _ (by decide)] at hlast
  exact absurd hlast (by decide)

def unlines (ls : List Text) : Text := ls.flatMap fun line => line ++ ['\n']

/-- The lines that do not mention the library, and the number of those that do. -/
def otherLines (ls : List Text) (last : Text) : Text × ℕ :=
  (unlines (ls.filter fun line => ¬ libraryName <:+: line) ++
      if libraryName <:+: last then [] else last,
    (last :: ls).countP fun line => libraryName <:+: line)

theorem removeLoop_fuel {fuel' : ℕ} (hfuel : text.length ≤ fuel) (hfuel' : text.length ≤ fuel')
    (newline : Bool) : removeLoop fuel newline text = removeLoop fuel' newline text := by
  induction fuel generalizing fuel' text newline with
  | zero => rw [length_eq_zero_iff.1 (Nat.le_zero.1 hfuel), removeLoop_nil, removeLoop_nil]
  | succ fuel ih =>
    cases text with
    | nil => rw [removeLoop_nil, removeLoop_nil]
    | cons c cs =>
      obtain ⟨fuel', rfl⟩ := Nat.exists_eq_add_of_le' (Nat.le_trans (Nat.succ_pos _) hfuel')
      rw [length_cons, Nat.add_le_add_iff_right] at hfuel hfuel'
      have hpos := length_fgets_pos c cs (show 0 < 127 by decide)
      have hdrop : ((c :: cs).drop (fgets 127 (c :: cs)).length).length ≤ cs.length := by
        rw [length_drop, length_cons]
        omega
      rw [removeLoop_cons, removeLoop_cons, ih hfuel hfuel' true, ih hfuel hfuel' false,
        ih (hdrop.trans hfuel) (hdrop.trans hfuel') true]

/-- The end of a line, or of the file. -/
def IsEnd (term more : Text) : Prop := term = ['\n'] ∨ term = [] ∧ more = []

variable {term more : Text}

theorem mentions_append (hend : IsEnd term more) : mentions (line ++ term) = mentions line := by
  rcases hend with rfl | ⟨rfl, -⟩
  · rw [mentions, mentions, takeWhile_append]
    split_ifs with hall
    · have hfront := takeWhile_prefix (l := line) (· ≠ '\x00')
      rw [hfront.eq_of_length hall]
      exact decide_eq_decide.2 infix_line
    · rfl
  · rw [append_nil]

theorem infix_of_mentions (h : mentions line = true) : libraryName <:+: line := by
  have hfront := takeWhile_prefix (l := line) (· ≠ '\x00')
  exact (of_decide_eq_true h).trans hfront.isInfix

/-- The rest of a line is copied. -/
theorem removeLoop_copy (hline : '\n' ∉ line) (hend : IsEnd term more) :
    removeLoop (line ++ term ++ more).length false (line ++ term ++ more) =
      (line ++ term ++ (removeAppViewLines more).1, (removeAppViewLines more).2) := by
  induction line with
  | nil =>
    rcases hend with rfl | ⟨rfl, rfl⟩
    · exact removeLoop_cons more.length false '\n' more
    · rfl
  | cons c cs ih =>
    rw [mem_cons, not_or] at hline
    rw [cons_append, cons_append, length_cons, removeLoop_cons, if_neg (Ne.symm hline.1),
      Bool.false_and, if_neg Bool.false_ne_true, ih hline.2]
    rfl

theorem remove_copied {c : Char} {cs : Text} (hline : '\n' ∉ c :: cs) (hend : IsEnd term more)
    (h : mentions (fgets 127 (c :: cs ++ term ++ more)) = false) :
    removeAppViewLines (c :: cs ++ term ++ more) =
      (c :: cs ++ term ++ (removeAppViewLines more).1, (removeAppViewLines more).2) := by
  rw [mem_cons, not_or] at hline
  rw [cons_append, cons_append] at h ⊢
  rw [removeAppViewLines, length_cons, removeLoop_cons, if_neg (Ne.symm hline.1), h,
    Bool.and_false, if_neg Bool.false_ne_true, removeLoop_copy hline.2 hend]
  rfl

theorem remove_piece {piece : Text} (hpiece : fgets 127 (piece ++ more) = piece)
    (hmention : mentions piece = true) (hline : piece.head? ≠ some '\n') :
    removeAppViewLines (piece ++ more) =
      ((removeAppViewLines more).1, (removeAppViewLines more).2 + 1) := by
  have hpos : 0 < piece.length := length_pos_iff.2 fun h0 => by
    rw [h0] at hmention
    exact absurd hmention (by decide)
  rw [removeAppViewLines, removeLoop_piece hpiece hmention hline (by rw [length_append]; omega),
    removeLoop_fuel (by rw [length_append]; omega) (Nat.le_refl more.length)]
  rfl

/-- What is written for one line, and how often it is counted: nothing and once exactly if the name
is seen in it and the line with its end is in one piece. -/
theorem remove_line (hline : '\n' ∉ line) (hend : IsEnd term more) :
    ∃ out n, removeAppViewLines (line ++ term ++ more) =
        (out ++ (removeAppViewLines more).1, n + (removeAppViewLines more).2) ∧
      (¬ libraryName <:+: line → out = line ++ term ∧ n = 0) ∧
      (libraryName <:+: line → (out = [] → 1 ≤ n) ∧
        (out = [] ∧ n = 1 ↔ mentions line = true ∧ (line ++ term).length ≤ 127)) := by
  induction hk : line.length using Nat.strong_induction_on generalizing line with
  | _ k ih =>
  subst hk
  cases line with
  | nil =>
    refine ⟨term, 0, ?_, fun _ => ⟨rfl, rfl⟩, fun h => absurd h (by decide)⟩
    rw [nil_append, Nat.zero_add]
    rcases hend with rfl | ⟨rfl, rfl⟩
    · exact removeLoop_cons more.length true '\n' more
    · rfl
  | cons c cs =>
    have hhead : ∀ more : Text, (c :: cs ++ more).head? ≠ some '\n' := fun _ h =>
      hline (Option.some.inj h ▸ mem_cons_self)
    by_cases hshort : (c :: cs ++ term).length ≤ 127
    · have hpiece : fgets 127 (c :: cs ++ term ++ more) = c :: cs ++ term := by
        rcases hend with rfl | ⟨rfl, rfl⟩
        · have hcomplete : Complete '\n' (c :: cs ++ ['\n']) := by
            intro d hd
            rw [getLast?_concat] at hd
            exact (Option.some.inj hd).symm
          rw [fgets_append hcomplete (by simp), fgets_line hline]
          rw [length_append] at hshort
          exact hshort
        · rw [append_nil, append_nil] at *
          rw [← append_nil (c :: cs), fgets_line_append hline, take_of_length_le hshort]
          cases 127 - (c :: cs).length <;> rfl
      have hmentions : mentions (c :: cs ++ term) = mentions (c :: cs) := mentions_append hend
      cases hm : mentions (c :: cs) with
      | true =>
        rw [hm] at hmentions
        refine ⟨[], 1, ?_, fun h => absurd (infix_of_mentions hm) h,
          fun _ => ⟨fun _ => Nat.le_refl 1, iff_of_true ⟨rfl, rfl⟩ ⟨rfl, hshort⟩⟩⟩
        rw [remove_piece hpiece hmentions (hhead term), Nat.add_comm]
        rfl
      | false =>
        rw [hm] at hmentions
        refine ⟨c :: cs ++ term, 0, ?_, fun _ => ⟨rfl, rfl⟩, fun _ => by simp⟩
        rw [remove_copied hline hend (by rw [hpiece, hmentions]), Nat.zero_add]
    · have hlong : 127 ≤ (c :: cs).length := by
        rcases hend with rfl | ⟨rfl, -⟩ <;> simp at hshort ⊢ <;> omega
      have hpiece : fgets 127 (c :: cs ++ term ++ more) = (c :: cs).take 127 := by
        rw [append_assoc]
        exact fgets_eq_take hline hlong _
      cases hm : mentions ((c :: cs).take 127) with
      | true =>
        have hdrop : '\n' ∉ (c :: cs).drop 127 := fun h => hline (mem_of_mem_drop h)
        obtain ⟨out, n, hrun, hclean, hfound⟩ := ih _ (by rw [length_drop]; omega) hdrop rfl
        have hfront := take_prefix 127 (c :: cs)
        refine ⟨out, n + 1, ?_, fun h => absurd ((infix_of_mentions hm).trans hfront.isInfix) h,
          fun _ => ⟨fun _ => Nat.succ_pos n, ?_⟩⟩
        · have hsplit : c :: cs ++ term ++ more =
              (c :: cs).take 127 ++ ((c :: cs).drop 127 ++ term ++ more) := by
            rw [append_assoc, append_assoc, ← append_assoc _ _ (term ++ more), take_append_drop]
          rw [hsplit] at hpiece ⊢
          rw [remove_piece hpiece hm (hhead []), hrun, Nat.add_right_comm]
        · refine iff_of_false (fun ⟨hout, hn⟩ => ?_) fun h => hshort h.2
          have hn : n = 0 := by omega
          by_cases hinfix : libraryName <:+: (c :: cs).drop 127
          · exact absurd ((hfound hinfix).1 hout) (by omega)
          · have hnil := (hclean hinfix).1
            rw [hout, eq_comm, append_eq_nil_iff, drop_eq_nil_iff] at hnil
            exact hshort (by rw [hnil.2, append_nil]; exact hnil.1)
      | false =>
        refine ⟨c :: cs ++ term, 0, ?_, fun _ => ⟨rfl, rfl⟩, fun _ => ⟨by simp, ?_⟩⟩
        swap
        · exact iff_of_false (by simp) fun h => hshort h.2
        rw [remove_copied hline hend (by rw [hpiece, hm]), Nat.zero_add]

/-- Texts and counts that are at least those expected are equal to them only part by part. -/
theorem parts_iff {out x r e : Text} {n m k l : ℕ} (hx : x.length ≤ out.length)
    (hm : out.length = x.length → m ≤ n) (he : e.length ≤ r.length)
    (hl : r.length = e.length → l ≤ k) :
    (out ++ r, n + k) = (x ++ e, m + l) ↔ (out, n) = (x, m) ∧ (r, k) = (e, l) := by
  simp only [Prod.mk.injEq]
  constructor
  · rintro ⟨htext, hcount⟩
    have hlen := congrArg length htext
    rw [length_append, length_append] at hlen
    obtain ⟨rfl, rfl⟩ := append_inj htext (by omega)
    have := hm rfl
    have := hl rfl
    exact ⟨⟨rfl, by omega⟩, rfl, by omega⟩
  · rintro ⟨⟨rfl, rfl⟩, rfl, rfl⟩
    exact ⟨rfl, rfl⟩

/-- What is left of a line, and is it counted? -/
def leftOf (line term : Text) : Text × ℕ :=
  if libraryName <:+: line then ([], 1) else (line ++ term, 0)

theorem otherLines_cons (line : Text) (ls : List Text) (last : Text) :
    otherLines (line :: ls) last =
    ((leftOf line ['\n']).1 ++ (otherLines ls last).1,
      (leftOf line ['\n']).2 + (otherLines ls last).2) := by
  by_cases h : libraryName <:+: line
  · have hfilter : filter (fun line => ¬ libraryName <:+: line) (line :: ls) =
        filter (fun line => ¬ libraryName <:+: line) ls := by simp [h]
    simp only [otherLines, leftOf, h, countP_cons, hfilter]
    simp [Nat.add_right_comm, Nat.add_comm 1]
  · simp [otherLines, leftOf, h, unlines, countP_cons]

/-- A line in front of a text of which at least the expected part is left. -/
theorem remove_line_iff (hline : '\n' ∉ line) (hend : IsEnd term more) {e : Text × ℕ}
    (he : e.1.length ≤ (removeAppViewLines more).1.length)
    (hcount : (removeAppViewLines more).1.length = e.1.length →
      e.2 ≤ (removeAppViewLines more).2) :
    let r := removeAppViewLines (line ++ term ++ more)
    let x := leftOf line term
    (x.1 ++ e.1).length ≤ r.1.length ∧ (r.1.length = (x.1 ++ e.1).length → x.2 + e.2 ≤ r.2) ∧
    (r = (x.1 ++ e.1, x.2 + e.2) ↔ (libraryName <:+: line →
      mentions line = true ∧ (line ++ term).length ≤ 127) ∧ removeAppViewLines more = e) := by
  obtain ⟨out, n, hrun, hclean, hfound⟩ := remove_line hline hend
  have hx : (leftOf line term).1.length ≤ out.length ∧
      (out.length = (leftOf line term).1.length → (leftOf line term).2 ≤ n) ∧
      ((out, n) = leftOf line term ↔ (libraryName <:+: line →
        mentions line = true ∧ (line ++ term).length ≤ 127)) := by
    rw [leftOf]
    split_ifs with h
    · refine ⟨Nat.zero_le _, fun h0 => (hfound h).1 (length_eq_zero_iff.1 h0), ?_⟩
      simpa [h] using (hfound h).2
    · obtain ⟨rfl, rfl⟩ := hclean h
      exact ⟨Nat.le_refl _, fun _ => Nat.le_refl 0, by simp [h]⟩
  obtain ⟨hlen, hle, hiff⟩ := hx
  intro r x
  simp only [r, x, hrun]
  refine ⟨by rw [length_append, length_append]; omega, fun h => ?_, ?_⟩
  · rw [length_append, length_append] at h
    have := hle (by omega)
    have := hcount (by omega)
    omega
  · rw [parts_iff hlen hle he hcount, ← hiff]

/-- At least the expected lines are left, and exactly those if every line that mentions the
library is found in one piece. -/
theorem remove_lines_iff {ls : List Text} {last : Text}
    (hlines : ∀ line ∈ last :: ls, '\n' ∉ line) :
    let r := removeAppViewLines (unlines ls ++ last)
    let e := otherLines ls last
    e.1.length ≤ r.1.length ∧ (r.1.length = e.1.length → e.2 ≤ r.2) ∧
    (r = e ↔ (∀ line ∈ ls, libraryName <:+: line → mentions line = true ∧ line.length < 127) ∧
      (libraryName <:+: last → mentions last = true ∧ last.length ≤ 127)) := by
  induction ls with
  | nil =>
    have hend : IsEnd [] [] := .inr ⟨rfl, rfl⟩
    have h := remove_line_iff (e := ([], 0)) (hlines last mem_cons_self) hend (Nat.zero_le _)
      fun _ => Nat.zero_le _
    have he : otherLines [] last = ((leftOf last []).1 ++ [], (leftOf last []).2 + 0) := by
      by_cases h : libraryName <:+: last <;> simp [otherLines, leftOf, h, unlines]
    have hnil : removeAppViewLines [] = ([], 0) := rfl
    simpa [he, hnil, unlines] using h
  | cons line ls ih =>
    obtain ⟨hlen, hcount, hiff⟩ := ih fun l hl => hlines l (by
      rcases mem_cons.1 hl with rfl | hl
      · exact mem_cons_self
      · exact mem_cons_of_mem _ (mem_cons_of_mem _ hl))
    have h := remove_line_iff (hlines line (mem_cons_of_mem _ mem_cons_self)) (.inl rfl) hlen hcount
    have hsplit : unlines (line :: ls) ++ last = line ++ ['\n'] ++ (unlines ls ++ last) := by
      simp [unlines]
    rw [hsplit, otherLines_cons]
    refine ⟨h.1, h.2.1, h.2.2.trans ?_⟩
    rw [hiff, forall_mem_cons, and_assoc, length_append, length_singleton]
    exact Iff.rfl

/-- **Exactly the lines that mention the library are left out** if and only if each of them is found
before a NUL and fits the buffer with its end. -/
theorem remove_lines {ls : List Text} {last : Text} (hlines : ∀ line ∈ last :: ls, '\n' ∉ line) :
    removeAppViewCfgFile true true true (unlines ls ++ last) =
        (((otherLines ls last).2 : ℤ), some (otherLines ls last).1) ↔
      (∀ line ∈ ls, libraryName <:+: line → mentions line = true ∧ line.length < 127) ∧
      (libraryName <:+: last → mentions last = true ∧ last.length ≤ 127) := by
  rw [← (remove_lines_iff hlines).2.2, removeAppViewCfgFile, if_neg (by decide),
    if_neg (by decide), Prod.ext_iff, Prod.ext_iff, and_comm]
  simp

theorem remove_lines_named :
    removeAppViewCfgFile true true true "A=1\nB=/libappview.so\nC=2".toList =
      (1, some "A=1\nC=2".toList) :=
  (@remove_lines ["A=1".toList, "B=/libappview.so".toList] "C=2".toList (by decide)).2
    (by decide +kernel)

/-- A line of 128 characters loses its first 127 ones. -/
theorem remove_lines_long :
    removeAppViewCfgFile true true true (libraryName ++ replicate 114 'x' ++ ['\n']) =
      (1, some ['x', '\n']) := by
  decide +kernel

/-! ## Versions -/

def Number (text : Text) : Prop := text ≠ [] ∧ text.all Char.isDigit = true

/-- Letters that a version may have. -/
def IsTag (tag : Text) : Prop := tag ≠ [] ∧ (tag.all fun c => c = 't' || c = 'c' || c = 'r') = true

/-- The two forms of the source's comment, with one of these tags. -/
def Documented (tags : List Text) (version : Text) : Prop :=
  ∃ major minor patch candidate, Number major ∧ Number minor ∧ Number patch ∧
    version = 'v' :: (major ++ '.' :: (minor ++ '.' :: (patch ++ candidate))) ∧
    (candidate = [] ∨ ∃ tag ∈ tags, ∃ number, Number number ∧ candidate = '-' :: (tag ++ number))

/-- The two functions agree, and give the version of a documented string alone. -/
structure Normalizes (tags : List Text) (version : Text) : Prop where
  agree : libverNormalizedVersion version = libVersion version
  dev : libVersion version ≠ "dev".toList ↔ Documented tags version
  version : Documented tags version → libVersion version = version.tail

theorem Number.all_isVersionChar (h : Number text) : text.all isVersionChar = true := by
  rw [all_eq_true]
  intro c hc
  simp [isVersionChar, all_eq_true.1 h.2 c hc]

/-- A documented string has the characters that are looked for. -/
theorem Documented.chars {tags : List Text} (htags : ∀ tag ∈ tags, IsTag tag) {version : Text}
    (h : Documented tags version) : ∃ rest, version = 'v' :: rest ∧
      (rest.all isVersionChar && rest.head?.all Char.isDigit) = true := by
  obtain ⟨major, minor, patch, candidate, hmajor, hminor, hpatch, rfl, hcandidate⟩ := h
  have hdot : isVersionChar '.' = true := rfl
  have hall : candidate.all isVersionChar = true := by
    rcases hcandidate with rfl | ⟨tag, htag, number, hnumber, rfl⟩
    · rfl
    · have hdash : isVersionChar '-' = true := rfl
      have hletters : tag.all isVersionChar = true := by
        have := (htags tag htag).2
        grind [isVersionChar]
      rw [all_cons, all_append, hdash, hletters, hnumber.all_isVersionChar]
      rfl
  refine ⟨_, rfl, ?_⟩
  rw [all_append, all_cons, all_append, all_cons, all_append, hdot, hall,
    hmajor.all_isVersionChar, hminor.all_isVersionChar, hpatch.all_isVersionChar]
  obtain ⟨d, ds, rfl⟩ := exists_cons_of_ne_nil hmajor.1
  exact (Bool.and_eq_true_iff.1 hmajor.2).1

/-- **Versions are taken as documented** exactly if they are in one of the two forms or, behind a
`v`, begin with something else than a digit or have another character. -/
theorem version_accepted {tags : List Text} (htags : ∀ tag ∈ tags, IsTag tag) (version : Text) :
    Normalizes tags version ↔ Documented tags version ∨ version.head? ≠ some 'v' ∨
      (∃ c ∈ version.tail.head?, c.isDigit = false) ∨
      ∃ c ∈ version.tail, isVersionChar c = false := by
  by_cases hv : ∃ rest, version = 'v' :: rest
  · obtain ⟨rest, rfl⟩ := hv
    have hagree : libVersion ('v' :: rest) = _ := normalized_cons rest
    have hchars : (¬ (rest.all isVersionChar && rest.head?.all Char.isDigit) = true) ↔
        (∃ c ∈ rest.head?, c.isDigit = false) ∨ ∃ c ∈ rest, isVersionChar c = false := by
      rw [Bool.and_eq_true, not_and_or, or_comm]
      refine or_congr ?_ (by simp)
      cases rest <;> simp
    simp only [head?_cons, ne_eq, not_true, false_or, tail_cons, ← hchars]
    by_cases hall : (rest.all isVersionChar && rest.head?.all Char.isDigit) = true
    · rw [if_pos hall] at hagree
      have hdev : rest ≠ "dev".toList := fun h => absurd (h ▸ hall) (by decide)
      refine ⟨fun h => .inl (h.dev.1 (hagree.trans_ne hdev)), fun h => ?_⟩
      have hdoc := h.resolve_right (not_not_intro hall)
      exact ⟨rfl, iff_of_true (hagree.trans_ne hdev) hdoc, fun _ => hagree⟩
    · rw [if_neg hall] at hagree
      have hdoc : ¬ Documented tags ('v' :: rest) := fun h => by
        obtain ⟨_, heq, h⟩ := h.chars htags
        cases heq
        exact hall h
      exact iff_of_true ⟨rfl, iff_of_false (not_not_intro hagree) hdoc, fun h => absurd h hdoc⟩
        (.inr hall)
  · have hhead : version.head? ≠ some 'v' := by
      cases version with
      | nil => simp
      | cons c cs => exact fun h => hv ⟨cs, by rw [Option.some.inj h]⟩
    have hdoc : ¬ Documented tags version := fun h =>
      hv ((h.chars htags).imp fun _ h => h.1)
    have hdev : libVersion version = "dev".toList := libVersion.eq_2 version fun r h => hv ⟨r, h⟩
    refine iff_of_true ⟨?_, iff_of_false (not_not_intro hdev) hdoc, fun h => absurd h hdoc⟩
      (.inr (.inl hhead))
    exact (libverNormalizedVersion.eq_2 version fun r h => hv ⟨r, h⟩).trans hdev.symm

theorem version_accepted_dash : Normalizes ["rc".toList, "tc".toList] "v1.2.3_5".toList :=
  (version_accepted (by simp [IsTag]) _).2 (.inr (.inr (.inr ⟨'_', by decide, by decide⟩)))

theorem version_accepted_short : ¬ Normalizes ["rc".toList, "tc".toList] "v1".toList := by
  intro h
  obtain ⟨major, minor, patch, tag, -, -, -, hv, -⟩ := h.dev.1 (by decide)
  have hdot : '.' ∈ "v1".toList := by
    rw [hv]
    simp
  exact absurd hdot (by decide)

/-! ## Units -/

def isSpace (c : Char) : Bool := c = ' ' || ('\t' ≤ c && c ≤ '\r')

def serviceSection : Text := "[Service]".toList

/-- The loop of `modifyServiceCfgSystemd`: what is written, and was the section found? No result
if a word overruns its buffer. -/
def systemdLoop (cfgEntry : Text) : ℕ → Text → Option (Text × Bool)
  | 0, _ => none
  | fuel + 1, text =>
    let buf := (text.dropWhile isSpace).takeWhile (!isSpace ·)
    let rest := (text.dropWhile isSpace).dropWhile (!isSpace ·)
    let str := buf.takeWhile (· ≠ '\x00')
    -- `fscanf` returns `EOF` or the number of words, which is never 0
    let res : ℤ := if buf = [] then -1 else 1
    if 4096 ≤ buf.length then none
    else
      (if rest = [] then some ([], false) else systemdLoop cfgEntry fuel rest).map fun r =>
        if str = serviceSection then (cfgEntry ++ r.1, true)
        else if res = 0 then (str ++ ' ' :: r.1, r.2)
        else r

def systemdEntry (libappviewPath : Text) : Text :=
  ("[Service]\nEnvironment=LD_PRELOAD=".toList ++ libappviewPath ++ ['\n']).take 4095

def modifyServiceCfgSystemd (libappviewPath text : Text) : Option Text :=
  let cfgEntry := systemdEntry libappviewPath
  (systemdLoop cfgEntry (text.length + 1) text).map fun r =>
    if r.2 then r.1 else r.1 ++ cfgEntry

theorem systemdLoop_copies {e : Text} {r : Text × Bool} (h : systemdLoop e fuel text = some r) :
    ∃ k, r.1 = (replicate k e).flatten ∧ (r.2 = true ↔ 0 < k) := by
  induction fuel generalizing text r with
  | zero => cases h
  | succ fuel ih =>
    rw [systemdLoop] at h
    set buf := (text.dropWhile isSpace).takeWhile (!isSpace ·)
    set rest := (text.dropWhile isSpace).dropWhile (!isSpace ·)
    split at h
    · cases h
    obtain ⟨r', hr', rfl⟩ := Option.map_eq_some_iff.1 h
    obtain ⟨k, hk, hfound⟩ : ∃ k, r'.1 = (replicate k e).flatten ∧ (r'.2 = true ↔ 0 < k) := by
      split_ifs at hr' with hrest
      · cases hr'
        exact ⟨0, rfl, by simp⟩
      · exact ih hr'
    have hres : (if buf = [] then -1 else 1 : ℤ) ≠ 0 := by split_ifs <;> decide
    rw [if_neg hres]
    split_ifs with hname
    · exact ⟨k + 1, by simp [replicate_succ, hk], by simp⟩
    · exact ⟨k, hk, hfound⟩

/-- A word of `fscanf` that fits the buffer. -/
def IsWord (w : Text) : Prop :=
  w ≠ [] ∧ w.length < 4096 ∧ (w.all fun c => !isSpace c && c ≠ '\x00') = true

theorem systemdLoop_word {w : Text} (hw : IsWord w) (e : Text) {s : Text}
    (hs : s = [] ∨ s = ['\n']) {rest : Text} (hrest : rest = [] ∨ rest.head? = some '\n')
    (fuel : ℕ) : systemdLoop e (fuel + 1) (s ++ (w ++ rest)) =
      (if rest = [] then some ([], false) else systemdLoop e fuel rest).map fun r =>
        if w = serviceSection then (e ++ r.1, true) else r := by
  obtain ⟨hne, hlen, hall⟩ := hw
  have hchars : ∀ c ∈ w, isSpace c = false ∧ c ≠ '\x00' := by simpa using hall
  clear hall
  obtain ⟨c, cs, rfl⟩ := exists_cons_of_ne_nil hne
  have hdrop : (s ++ (c :: cs ++ rest)).dropWhile isSpace = c :: cs ++ rest := by
    have hc : isSpace c = false := (hchars c mem_cons_self).1
    have hnl : isSpace '\n' = true := rfl
    rcases hs with rfl | rfl <;> simp [hc, hnl]
  have hall : ∀ d ∈ c :: cs, (!isSpace d) = true := fun d hd => by simp [(hchars d hd).1]
  have hstop : rest.takeWhile (!isSpace ·) = [] ∧ rest.dropWhile (!isSpace ·) = rest := by
    cases rest with
    | nil => exact ⟨rfl, rfl⟩
    | cons d ds =>
      have hd : d = '\n' := by simpa using hrest
      have hnl : isSpace '\n' = true := rfl
      subst hd
      simp [hnl]
  have hbuf : (c :: cs ++ rest).takeWhile (!isSpace ·) = c :: cs := by
    rw [takeWhile_append_of_pos hall, hstop.1, append_nil]
  have hrem : (c :: cs ++ rest).dropWhile (!isSpace ·) = rest := by
    rw [dropWhile_append_of_pos hall, hstop.2]
  have hstr : (c :: cs).takeWhile (· ≠ '\x00') = c :: cs :=
    takeWhile_eq_self_iff.2 fun d hd => decide_eq_true (hchars d hd).2
  rw [systemdLoop, hdrop, hbuf, hrem, if_neg (by omega), hstr]
  simp

/-- Lines of one word each: there is an entry for every section. -/
theorem systemdLoop_words (e : Text) {ls : List Text} {last : Text} (hls : ∀ w ∈ ls, IsWord w)
    (hlast : last = [] ∨ IsWord last) {s : Text} (hs : s = [] ∨ s = ['\n'])
    (hfuel : (s ++ (unlines ls ++ last)).length < fuel) :
    systemdLoop e fuel (s ++ (unlines ls ++ last)) =
      some ((replicate ((ls ++ [last]).count serviceSection) e).flatten,
        decide (0 < (ls ++ [last]).count serviceSection)) := by
  induction ls generalizing s fuel with
  | nil =>
    obtain ⟨fuel, rfl⟩ := Nat.exists_eq_succ_of_ne_zero (Nat.ne_of_gt (Nat.zero_lt_of_lt hfuel))
    rcases hlast with rfl | hword
    · rcases hs with rfl | rfl <;> rfl
    · have hrun := systemdLoop_word hword e hs (.inl rfl) fuel
      rw [append_nil] at hrun
      rw [unlines, flatMap_nil, nil_append, nil_append, hrun]
      by_cases h : last = serviceSection <;> simp [h]
  | cons w ls ih =>
    obtain ⟨fuel, rfl⟩ := Nat.exists_eq_succ_of_ne_zero (Nat.ne_of_gt (Nat.zero_lt_of_lt hfuel))
    have hsplit : unlines (w :: ls) ++ last = w ++ (['\n'] ++ (unlines ls ++ last)) := by
      simp [unlines]
    have hpos := length_pos_iff.2 (hls w mem_cons_self).1
    rw [hsplit, length_append, length_append] at hfuel
    rw [hsplit, systemdLoop_word (hls w mem_cons_self) e hs (.inr rfl),
      if_neg (by simp), ih (fun w' hw' => hls w' (mem_cons_of_mem w hw')) (.inr rfl)
        (by omega)]
    by_cases h : w = serviceSection <;> simp [h, replicate_succ, count_cons]

/-- The line of the library. -/
def environmentLine (path : Text) : Text := "Environment=LD_PRELOAD=".toList ++ path

/-- The unit has the line of the library in its section, and all other lines as they were. -/
def Keeps (path : Text) (original : List Text) (out : Option Text) : Prop :=
  ∃ ls, out = some (unlines ls) ∧ (∀ line ∈ ls, '\n' ∉ line) ∧
    [serviceSection, environmentLine path] <:+: ls ∧
    original.filter (· ≠ environmentLine path) <+ ls

theorem unlines_inj {a b : List Text} (ha : ∀ line ∈ a, '\n' ∉ line) (hb : ∀ line ∈ b, '\n' ∉ line)
    (h : unlines a = unlines b) : a = b := by
  induction a generalizing b with
  | nil =>
    cases b with
    | nil => rfl
    | cons y b => simp [unlines] at h
  | cons x a ih =>
    cases b with
    | nil => simp [unlines] at h
    | cons y b =>
      have hcut : ∀ {line : Text} (rest : Text), '\n' ∉ line →
          (line ++ '\n' :: rest).takeWhile (· ≠ '\n') = line := by
        intro line rest hline
        have hall : ∀ c ∈ line, decide (c ≠ '\n') = true := fun c hc =>
          decide_eq_true fun (h : c = '\n') => hline (h ▸ hc)
        rw [takeWhile_append_of_pos hall]
        simp
      have hsplit : x ++ '\n' :: unlines a = y ++ '\n' :: unlines b := by
        simpa [unlines] using h
      have hxy : x = y := by
        rw [← hcut (unlines a) (ha x mem_cons_self), hsplit, hcut _ (hb y mem_cons_self)]
      subst hxy
      have hrest : unlines a = unlines b := by simpa using hsplit
      rw [ih (fun l hl => ha l (mem_cons_of_mem x hl)) (fun l hl => hb l (mem_cons_of_mem x hl))
        hrest]

theorem isWord_environmentLine (hpath : h.libappviewPath = some path) :
    IsWord (environmentLine path) ∧ path.length ≤ 4061 := by
  rcases libappviewPath_cases hpath with rfl | ⟨rfl, hlen⟩
  · exact ⟨⟨by decide, by decide, rfl⟩, by decide⟩
  have hchars := normalized_all (p := fun c => !isSpace c && c ≠ '\x00') (fun c hc => ?_) rfl
    h.version
  · generalize libverNormalizedVersion h.version = v at hlen hchars ⊢
    -- for any texts around the version, so that the literals stay as they are
    have hword : ∀ a b c : Text, (a ≠ [] ∧ a.length = 23 ∧ b.length = 13 ∧ c.length = 14) →
        (a ++ b ++ c).all (fun c => !isSpace c && c ≠ '\x00') = true →
        IsWord (a ++ (b ++ v ++ c)) ∧ (b ++ v ++ c).length ≤ 4061 := by
      rintro a b c ⟨hne, ha, hb, hc⟩ hall
      simp only [all_append, Bool.and_eq_true] at hall
      refine ⟨⟨by simp [hne], by simp only [length_append]; omega, ?_⟩, by
        simp only [length_append]; omega⟩
      rw [all_append, all_append, all_append, hall.1.1, hall.1.2, hall.2, hchars]
      rfl
    exact hword _ _ _ ⟨by decide, rfl, rfl, rfl⟩ rfl
  · simp only [isVersionChar, Bool.or_eq_true, decide_eq_true_eq] at hc
    rcases hc with ((((hd | rfl) | rfl) | rfl) | rfl) | rfl
    · simp only [Char.isDigit, Bool.and_eq_true, decide_eq_true_eq] at hd
      have hblank : ¬ c = ' ' := by rintro rfl; exact absurd hd.1 (by decide)
      have hnul : ¬ c = '\x00' := by rintro rfl; exact absurd hd.1 (by decide)
      have hcontrol : ¬ c ≤ '\r' := fun h => absurd (le_trans hd.1 h) (by decide)
      simp [isSpace, hblank, hnul, hcontrol]
    all_goals rfl

/-- The entry in one piece: the section and the line of the library. -/
theorem systemdEntry_eq (hpath : path.length ≤ 4061) :
    systemdEntry path = unlines [serviceSection, environmentLine path] := by
  have hlen : "[Service]\nEnvironment=LD_PRELOAD=".toList.length = 33 := rfl
  have htake : systemdEntry path =
      "[Service]\nEnvironment=LD_PRELOAD=".toList ++ path ++ ['\n'] := by
    refine take_of_length_le ?_
    rw [length_append, length_append, hlen, length_singleton]
    exact Nat.add_le_add_right (Nat.add_le_add_left hpath 33) 1
  have hsplit : "[Service]\nEnvironment=LD_PRELOAD=".toList =
      serviceSection ++ '\n' :: "Environment=LD_PRELOAD=".toList := rfl
  -- for any two texts, so that the literals stay as they are
  have hlines : ∀ a b : Text, a ++ '\n' :: b ++ path ++ ['\n'] = unlines [a, b ++ path] := by
    simp [unlines]
  rw [htake, hsplit]
  exact hlines _ _

/-- Whatever the text of the unit is, the result consists of entries. -/
theorem modify_copies {out : Text} (hout : modifyServiceCfgSystemd path text = some out) :
    ∃ k, out = (replicate (k + 1) (systemdEntry path)).flatten := by
  obtain ⟨r, hr, rfl⟩ := Option.map_eq_some_iff.1 hout
  obtain ⟨k, hk, hfound⟩ := systemdLoop_copies hr
  split_ifs with hyes
  · obtain ⟨k, rfl⟩ := Nat.exists_eq_succ_of_ne_zero (hfound.1 hyes).ne'
    exact ⟨k, hk⟩
  · have hzero : k = 0 := by simpa using hfound.not.1 hyes
    exact ⟨0, by simp [hk, hzero]⟩

theorem unlines_flatten (n : ℕ) (ls : List Text) :
    unlines (replicate n ls).flatten = (replicate n (unlines ls)).flatten := by
  induction n with
  | zero => rfl
  | succ n ih =>
    rw [replicate_succ, flatten_cons, replicate_succ, flatten_cons, ← ih, unlines, flatMap_append]
    rfl

theorem replicate_sublist_flatten {x y : Text} {m n : ℕ} (hmn : m ≤ n) :
    replicate m x <+ (replicate n [x, y]).flatten := by
  induction n generalizing m with
  | zero => rw [Nat.le_zero.1 hmn]; exact Sublist.refl _
  | succ n ih =>
    cases m with
    | zero => exact nil_sublist _
    | succ m => exact ((ih (Nat.le_of_succ_le_succ hmn)).cons y).cons_cons x

/-- **A unit is kept exactly if it has nothing but sections `[Service]` and the library's line**:
whatever else it has is lost. -/
theorem systemd_unit (hpath : h.libappviewPath = some path) (ls : List Text) (last : Text) :
    Keeps path (ls ++ if last = [] then [] else [last])
        (modifyServiceCfgSystemd path (unlines ls ++ last)) ↔
      ∀ line ∈ ls ++ (if last = [] then [] else [last]),
        line = serviceSection ∨ line = environmentLine path := by
  obtain ⟨hword, hlen⟩ := isWord_environmentLine hpath
  have hentry := systemdEntry_eq (show path.length ≤ 4061 by omega)
  have hservice : IsWord serviceSection := by
    refine ⟨by decide, by decide, rfl⟩
  have hnl : ∀ w, IsWord w → '\n' ∉ w := fun w hw hmem =>
    absurd (all_eq_true.1 hw.2.2 _ hmem) (by decide)
  have hout : ∀ n, ∀ line ∈ (replicate n [serviceSection, environmentLine path]).flatten,
      line = serviceSection ∨ line = environmentLine path := by
    intro n line hline
    obtain ⟨l, hl, hmem⟩ := mem_flatten.1 hline
    rw [(mem_replicate.1 hl).2] at hmem
    simpa using hmem
  have hfree : ∀ n, ∀ line ∈ (replicate n [serviceSection, environmentLine path]).flatten,
      '\n' ∉ line := by
    intro n line hline
    rcases hout n line hline with rfl | rfl
    exacts [hnl _ hservice, hnl _ hword]
  constructor
  · rintro ⟨os, hos, hosfree, -, hsub⟩ line hline
    by_cases hsame : line = environmentLine path
    · exact .inr hsame
    obtain ⟨k, hk⟩ := modify_copies hos
    rw [hentry, ← unlines_flatten] at hk
    rw [unlines_inj hosfree (hfree (k + 1)) hk] at hsub
    exact hout _ line (hsub.subset (mem_filter.2 ⟨hline, decide_eq_true hsame⟩))
  · intro hall
    have hwords : ∀ line ∈ ls ++ (if last = [] then [] else [last]), IsWord line := by
      intro line hline
      rcases hall line hline with rfl | rfl
      exacts [hservice, hword]
    have hlast : last = [] ∨ IsWord last := by
      by_cases h0 : last = []
      · exact .inl h0
      · exact .inr (hwords last (by simp [h0]))
    have hloop := systemdLoop_words (systemdEntry path)
      (fun w hw => hwords w (mem_append_left _ hw)) hlast (.inl rfl) (Nat.lt_succ_self _)
    set n := (ls ++ [last]).count serviceSection with hn
    have hmodify : modifyServiceCfgSystemd path (unlines ls ++ last) =
        some (unlines (replicate (max n 1) [serviceSection, environmentLine path]).flatten) := by
      rw [nil_append] at hloop
      rw [modifyServiceCfgSystemd, hloop, unlines_flatten, ← hentry]
      rcases Nat.eq_zero_or_pos n with h0 | hpos
      · simp [h0]
      · simp [hpos, Nat.max_eq_left (Nat.succ_le_of_lt hpos)]
    refine ⟨_, hmodify, hfree _, ?_, ?_⟩
    · obtain ⟨k, hk⟩ := Nat.exists_eq_add_of_le' (Nat.le_max_right n 1)
      rw [hk, replicate_succ, flatten_cons]
      exact infix_append [] _ _
    · have hsections : (ls ++ if last = [] then [] else [last]).filter
          (· ≠ environmentLine path) = replicate _ serviceSection :=
        eq_replicate_of_mem fun line hline => by
          obtain ⟨hmem, hne⟩ := mem_filter.1 hline
          exact (hall line hmem).resolve_right (of_decide_eq_true hne)
      rw [hsections]
      refine replicate_sublist_flatten (Nat.le_trans ?_ (Nat.le_max_left n 1))
      have hcount : ∀ line ∈ (ls ++ if last = [] then [] else [last]).filter
          (· ≠ environmentLine path), line = serviceSection := by
        rw [hsections]
        exact fun line hline => eq_of_mem_replicate hline
      rw [← count_eq_length.2 fun line hline => (hcount line hline).symm, hn]
      refine Sublist.count_le _ (filter_sublist.trans ?_)
      split_ifs <;> simp

theorem systemd_unit_one : Keeps libPath [serviceSection]
    (modifyServiceCfgSystemd libPath (unlines [] ++ serviceSection)) :=
  (systemd_unit (h := exampleHost .systemD [] true) rfl [] serviceSection).2 (by decide)

/-- The lines of the other section and of this one are lost. -/
theorem systemd_unit_lost : ¬ Keeps libPath
    ["[Unit]".toList, "A=1".toList, "[Service]".toList, "B=2".toList]
    (modifyServiceCfgSystemd libPath "[Unit]\nA=1\n[Service]\nB=2\n".toList) := by
  rintro ⟨ls, hls, hfree, -, hsub⟩
  have hout : modifyServiceCfgSystemd libPath "[Unit]\nA=1\n[Service]\nB=2\n".toList =
      some (unlines [serviceSection, environmentLine libPath]) := by decide +kernel
  rw [unlines_inj hfree (by decide) (Option.some.inj (hls.symm.trans hout))] at hsub
  exact absurd (hsub.subset (a := "[Unit]".toList) (by decide)) (by decide)

end AppView.Service

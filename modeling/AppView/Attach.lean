import Mathlib

/-!
# The environment of an attached process

On attach the loader writes the variables that the library is to see to a file, one
`NAME=VALUE` on a line, and the library in the target reads them back (`initEnv`).
-/

namespace AppView.Attach

open List

abbrev Var : Type := List Char × List Char

def Var.text (v : Var) : List Char := v.1 ++ '=' :: v.2

/-! ## The loader -/

def libPathName : List Char := "APPVIEW_LIB_PATH".toList

def namePrefix : List Char := "APPVIEW_".toList

def writes (v : Var) : Bool := 6 < v.text.length && v.text.take 6 == namePrefix.take 6

def line (v : Var) : List Char := v.text ++ ['\n']

def attachFile (libPath : List Char) (environ : List Var) : List Char :=
  line (libPathName, libPath) ++ (environ.filter writes).flatMap line

/-! ## The library -/

def fgets : ℕ → List Char → List Char × List Char
  | 0, s => ([], s)
  | _ + 1, [] => ([], [])
  | room + 1, c :: s =>
    if c = '\n' then ([c], s)
    else
      let r := fgets room s
      (c :: r.1, r.2)

def strtok (s : List Char) : Option (List Char × List Char) :=
  match s.dropWhile (· = '=') with
  | [] => none
  | c :: s => some ((c :: s).takeWhile (· ≠ '='), ((c :: s).dropWhile (· ≠ '=')).tail)

def initEnvLine (l : List Char) : List Var :=
  let l := if l.getLast? = some '\n' then l.dropLast else l
  match strtok l with
  | none => []
  | some (key, rest) =>
    match strtok rest with
    | none => []
    | some (val, _) => [(key, val)]

def lineRoom : ℕ := 8191

variable {s libPath : List Char} {v : Var} {environ : List Var}

theorem length_fgets_rest {room : ℕ} (hroom : 0 < room) (hs : s ≠ []) :
    (fgets room s).2.length < s.length := by
  have hle : ∀ (n : ℕ) (s : List Char), (fgets n s).2.length ≤ s.length := by
    intro n s
    fun_induction fgets n s with
    | case1 => exact le_rfl
    | case2 => exact le_rfl
    | case3 => exact Nat.le_succ _
    | case4 room c s _ r ih => exact Nat.le_succ_of_le ih
  obtain ⟨room, rfl⟩ := Nat.exists_eq_succ_of_ne_zero hroom.ne'
  obtain ⟨c, s, rfl⟩ := exists_cons_of_ne_nil hs
  rw [fgets]
  split_ifs
  · exact Nat.lt_succ_self _
  · exact Nat.lt_succ_of_le (hle room s)

def initEnv (file : List Char) : List Var :=
  if _h : file = [] then []
  else initEnvLine (fgets lineRoom file).1 ++ initEnv (fgets lineRoom file).2
termination_by file.length
decreasing_by exact length_fgets_rest (by decide) _h

/-! ## Reading a line -/

section Fgets

variable {room : ℕ} {l rest : List Char}

theorem fgets_line (hl : '\n' ∉ l) (hroom : l.length < room) :
    fgets room (l ++ '\n' :: rest) = (l ++ ['\n'], rest) := by
  induction l generalizing room with
  | nil =>
    obtain ⟨room, rfl⟩ := Nat.exists_eq_succ_of_ne_zero (Nat.ne_of_gt hroom)
    simp [fgets]
  | cons c l ih =>
    obtain ⟨room, rfl⟩ := Nat.exists_eq_succ_of_ne_zero (Nat.ne_zero_of_lt hroom)
    rw [mem_cons, not_or] at hl
    rw [cons_append, fgets, if_neg (Ne.symm hl.1), ih hl.2 (Nat.lt_of_succ_lt_succ hroom)]
    rfl

theorem fgets_long (hl : '\n' ∉ l) (hroom : room ≤ l.length) :
    fgets room (l ++ '\n' :: rest) = (l.take room, l.drop room ++ '\n' :: rest) := by
  induction l generalizing room with
  | nil =>
    obtain rfl : room = 0 := Nat.le_zero.1 hroom
    rfl
  | cons c l ih =>
    cases room with
    | zero => rfl
    | succ room =>
      rw [mem_cons, not_or] at hl
      rw [cons_append, fgets, if_neg (Ne.symm hl.1), ih hl.2 (Nat.le_of_succ_le_succ hroom)]
      rfl

end Fgets

theorem initEnv_nil : initEnv [] = [] := by
  rw [initEnv, dif_pos rfl]

variable {file t r : List Char}

theorem initEnv_cons (h : file ≠ []) :
    initEnv file = initEnvLine (fgets lineRoom file).1 ++ initEnv (fgets lineRoom file).2 := by
  rw [initEnv, dif_neg h]

variable {l : List Char}

/-- **A line is read by itself**, also one that is read in pieces. -/
theorem initEnv_line (hl : '\n' ∉ l) (rest : List Char) :
    initEnv (l ++ '\n' :: rest) = initEnv (l ++ ['\n']) ++ initEnv rest := by
  induction hn : l.length using Nat.strongRecOn generalizing l with
  | ind n ih =>
    subst hn
    rw [initEnv_cons (by simp), initEnv_cons (show l ++ ['\n'] ≠ [] by simp)]
    rcases Nat.lt_or_ge l.length lineRoom with hlen | hlen
    · rw [fgets_line hl hlen, fgets_line hl hlen, initEnv_nil, append_nil]
    · have hdrop : '\n' ∉ l.drop lineRoom := fun h => hl (mem_of_mem_drop h)
      have hshort : (l.drop lineRoom).length < l.length := by
        have hpos : 0 < lineRoom := by decide
        rw [length_drop]
        omega
      rw [fgets_long hl hlen, fgets_long hl hlen, ih _ hshort hdrop rfl, append_assoc]

theorem initEnv_lines {vs : List Var} (h : ∀ v ∈ vs, '\n' ∉ v.text) :
    initEnv (vs.flatMap line) = vs.flatMap fun v => initEnv (line v) := by
  induction vs with
  | nil => exact initEnv_nil
  | cons v vs ih =>
    have hsplit : (v :: vs).flatMap line = v.text ++ '\n' :: vs.flatMap line := by
      simp [line]
    rw [hsplit, initEnv_line (h v (by simp)), ih (forall_mem_cons.1 h).2]
    rfl

/-! ## What a line sets -/

theorem strtok_some (h : strtok s = some (t, r)) :
    t ≠ [] ∧ '=' ∉ t ∧ t.length ≤ s.length ∧ (r ≠ [] → t.length + 1 + r.length ≤ s.length) := by
  unfold strtok at h
  have hdrop : (s.dropWhile (· = '=')).length ≤ s.length := (dropWhile_sublist _).length_le
  split at h
  case h_1 => cases h
  case h_2 c s' hs =>
    rw [hs] at hdrop
    have hc : c ≠ '=' := by
      have hne : s.dropWhile (· = '=') ≠ [] := by simp [hs]
      have hhead := head_dropWhile_not (· = '=') hne
      simpa [hs] using hhead
    have hparts := congrArg length (takeWhile_append_dropWhile (p := (· ≠ '=')) (l := c :: s'))
    rw [length_append] at hparts
    obtain ⟨rfl, rfl⟩ := h
    refine ⟨by simp [hc], ?_, by omega, ?_⟩
    · intro hmem
      simpa using mem_takeWhile_imp hmem
    · intro hr
      have hne : (c :: s').dropWhile (· ≠ '=') ≠ [] := by
        intro h0
        rw [h0] at hr
        exact hr rfl
      have htail := length_tail_add_one _ (length_pos_of_ne_nil hne)
      omega

theorem mem_initEnvLine (h : v ∈ initEnvLine l) :
    v.2 ≠ [] ∧ '=' ∉ v.2 ∧ v.text.length ≤ l.length := by
  have hstrip : (if l.getLast? = some '\n' then l.dropLast else l).length ≤ l.length := by
    split_ifs
    · rw [length_dropLast]
      exact Nat.sub_le _ _
    · exact le_rfl
  unfold initEnvLine at h
  dsimp only at h
  split at h
  case h_1 => cases h
  case h_2 key rest hkey =>
    split at h
    case h_1 => cases h
    case h_2 val r hval =>
      obtain rfl := mem_singleton.1 h
      obtain ⟨-, -, -, hlen⟩ := strtok_some hkey
      obtain ⟨hne, heq, hle, -⟩ := strtok_some hval
      have hrest : rest ≠ [] := by
        rintro rfl
        cases hval
      refine ⟨hne, heq, ?_⟩
      have := hlen hrest
      simp only [Var.text, length_append, length_cons]
      omega

theorem length_fgets_le (room : ℕ) (s : List Char) : (fgets room s).1.length ≤ room := by
  fun_induction fgets room s with
  | case1 => exact le_rfl
  | case2 => exact Nat.zero_le _
  | case3 => exact Nat.le_add_left 1 _
  | case4 room c s _ r ih => exact Nat.succ_le_succ ih

theorem mem_initEnv (h : v ∈ initEnv file) : v.2 ≠ [] ∧ '=' ∉ v.2 ∧ v.text.length ≤ lineRoom := by
  fun_induction initEnv file with
  | case1 => cases h
  | case2 file hne ih =>
    rcases mem_append.1 h with h | h
    · obtain ⟨hval, heq, hlen⟩ := mem_initEnvLine h
      exact ⟨hval, heq, hlen.trans (length_fgets_le lineRoom file)⟩
    · exact ih h

/-! ## The pieces of a line -/

def pieces (l : List Char) : List (List Char) :=
  if _h : l.length ≤ lineRoom then [l] else l.take lineRoom :: pieces (l.drop lineRoom)
termination_by l.length
decreasing_by
  have hpos : 0 < lineRoom := by decide
  rw [length_drop]
  omega

theorem pieces_short (h : l.length ≤ lineRoom) : pieces l = [l] := by
  rw [pieces, dif_pos h]

theorem initEnvLine_newline (hl : '\n' ∉ l) : initEnvLine (l ++ ['\n']) = initEnvLine l := by
  have hlast : l.getLast? ≠ some '\n' := fun h => hl (mem_of_getLast? h)
  have hstrip : (if (l ++ ['\n']).getLast? = some '\n' then (l ++ ['\n']).dropLast
      else l ++ ['\n']) = if l.getLast? = some '\n' then l.dropLast else l := by
    rw [if_neg hlast, if_pos (by simp), dropLast_concat]
  rw [initEnvLine, hstrip, initEnvLine]

/-- **What a line sets, its pieces set.** -/
theorem initEnv_pieces (hl : '\n' ∉ l) :
    initEnv (l ++ ['\n']) = (pieces l).flatMap initEnvLine := by
  fun_induction pieces l with
  | case1 l hlen =>
    rw [initEnv_cons (by simp), flatMap_singleton]
    rcases Nat.lt_or_eq_of_le hlen with hlt | heq
    · rw [fgets_line hl hlt, initEnv_nil, append_nil, initEnvLine_newline hl]
    · -- the buffer is full: the newline is read alone and sets nothing
      have hnewline : initEnv ['\n'] = [] := by
        rw [initEnv_cons (by simp)]
        exact initEnv_nil
      rw [fgets_long hl heq.ge, take_of_length_le hlen, drop_of_length_le hlen,
        nil_append, hnewline, append_nil]
  | case2 l hlen ih =>
    have hdrop : '\n' ∉ l.drop lineRoom := fun h => hl (mem_of_mem_drop h)
    rw [initEnv_cons (by simp), fgets_long hl (Nat.le_of_not_le hlen), flatMap_cons, ih hdrop]

/-! ## The round trip -/

def Prefixed (v : Var) : Prop := namePrefix <+: v.1

instance : DecidablePred Prefixed := fun v => inferInstanceAs (Decidable (namePrefix <+: v.1))

def expected (libPath : List Char) (environ : List Var) : List Var :=
  (libPathName, libPath) :: environ.filter fun v => decide (Prefixed v)

def Carried (v : Var) : Prop := v.2 ≠ [] ∧ '=' ∉ v.2 ∧ v.text.length ≤ lineRoom

instance : DecidablePred Carried := fun _ =>
  inferInstanceAs (Decidable (_ ∧ _))

def Quiet (libPath : List Char) (environ : List Var) (v : Var) : Prop :=
  ∀ p ∈ pieces v.text, ∀ w ∈ initEnvLine p, w ∈ expected libPath environ

def OneLine (v : Var) : Prop := '=' ∉ v.1 ∧ '\n' ∉ v.1 ∧ '\n' ∉ v.2

instance : DecidablePred OneLine := fun _ =>
  inferInstanceAs (Decidable (_ ∧ _))

theorem OneLine.text (h : OneLine v) : '\n' ∉ v.text := by
  simp [Var.text, h.2.1, h.2.2]

theorem Prefixed.ne_nil (h : Prefixed v) : v.1 ≠ [] := by
  intro h0
  rw [Prefixed, h0] at h
  exact absurd (prefix_nil.1 h) (by decide)

theorem prefixed_of_mem_expected (h : v ∈ expected libPath environ) : Prefixed v := by
  rcases mem_cons.1 h with rfl | h
  · exact ⟨"LIB_PATH".toList, rfl⟩
  · exact of_decide_eq_true (mem_filter.1 h).2

theorem writes_of_prefixed (h : Prefixed v) : writes v = true := by
  obtain ⟨t, ht⟩ := h
  have htext : v.text = namePrefix ++ (t ++ '=' :: v.2) := by
    rw [Var.text, ← ht, append_assoc]
  have htake : v.text.take 6 = namePrefix.take 6 := by
    rw [htext, take_append_of_le_length (by decide)]
  have hlen : 6 < v.text.length := by
    have hsix : 6 < namePrefix.length := by decide
    rw [htext, length_append]
    omega
  simp [writes, htake, hlen]

theorem ne_nil_of_writes (h : writes v = true) : v.1 ≠ [] := by
  intro h0
  have htake : v.text.take 6 = namePrefix.take 6 := by
    simp only [writes, Bool.and_eq_true, beq_iff_eq] at h
    exact h.2
  rw [Var.text, h0, nil_append, take_succ_cons] at htake
  exact absurd (cons.inj htake).1 (by decide)

theorem strtok_append (hne : t ≠ []) (ht : '=' ∉ t) (hr : r.takeWhile (· ≠ '=') = []) :
    strtok (t ++ r) = some (t, r.tail) := by
  have hall : ∀ d ∈ t, decide (d ≠ '=') = true := by
    intro d hd
    exact decide_eq_true (ne_of_mem_of_not_mem hd ht)
  have hrest : r.dropWhile (· ≠ '=') = r := by
    have happend := takeWhile_append_dropWhile (p := (· ≠ '=')) (l := r)
    rwa [hr, nil_append] at happend
  have htoken : (t ++ r).takeWhile (· ≠ '=') = t := by
    rw [takeWhile_append_of_pos hall, hr, append_nil]
  have hafter : (t ++ r).dropWhile (· ≠ '=') = r := by
    rw [dropWhile_append_of_pos hall, hrest]
  obtain ⟨c, cs, rfl⟩ := exists_cons_of_ne_nil hne
  have hc : c ≠ '=' := ne_of_mem_of_not_mem (by simp) ht
  have hstart : ((c :: cs) ++ r).dropWhile (· = '=') = c :: (cs ++ r) := by
    simp [hc]
  rw [strtok, hstart]
  dsimp only
  rw [← cons_append, htoken, hafter]

theorem strtok_eq_none : strtok s = none ↔ ∀ c ∈ s, c = '=' := by
  have hnil : strtok s = none ↔ s.dropWhile (· = '=') = [] := by
    unfold strtok
    split
    case h_1 h => simp [h]
    case h_2 c s' h => simp [h]
  rw [hnil, dropWhile_eq_nil_iff]
  simp

theorem initEnvLine_text (hne : v.1 ≠ []) (h : OneLine v) :
    initEnvLine v.text = match strtok v.2 with
      | none => []
      | some (val, _) => [(v.1, val)] := by
  have hlast : v.text.getLast? ≠ some '\n' := fun hnl => h.text (mem_of_getLast? hnl)
  have hname : strtok v.text = some (v.1, v.2) := strtok_append hne h.1 (by simp)
  rw [initEnvLine, if_neg hlast, hname]

theorem initEnv_carried (hne : v.1 ≠ []) (hline : OneLine v) (h : Carried v) :
    initEnv (line v) = [v] := by
  have hvalue : strtok v.2 = some (v.2, []) := by
    have hstr := strtok_append h.1 h.2.1 (r := []) rfl
    rwa [append_nil] at hstr
  rw [line, initEnv_pieces hline.text, pieces_short h.2.2, flatMap_singleton,
    initEnvLine_text hne hline, hvalue]

theorem quiet_short (hw : writes v = true) (hp : ¬ Prefixed v) (hline : OneLine v)
    (hlen : v.text.length ≤ lineRoom) : Quiet libPath environ v ↔ ∀ c ∈ v.2, c = '=' := by
  rw [Quiet, pieces_short hlen, ← strtok_eq_none]
  simp only [mem_singleton, forall_eq]
  rw [initEnvLine_text (ne_nil_of_writes hw) hline]
  rcases hval : strtok v.2 with _ | ⟨val, rest⟩
  · simp
  · have hforeign : (v.1, val) ∉ expected libPath environ := by
      intro h
      have hname : Prefixed (v.1, val) := prefixed_of_mem_expected h
      exact hp hname
    simp [hforeign]

theorem mem_initEnv_attachFile (hlib : '\n' ∉ libPath) (henv : ∀ w ∈ environ, OneLine w) :
    v ∈ initEnv (attachFile libPath environ) ↔ v ∈ initEnv (line (libPathName, libPath)) ∨
        ∃ w ∈ environ, writes w = true ∧ v ∈ initEnv (line w) := by
  have hlines : initEnv (attachFile libPath environ) =
      ((libPathName, libPath) :: environ.filter writes).flatMap fun w => initEnv (line w) := by
    rw [attachFile, ← flatMap_cons]
    apply initEnv_lines
    intro w hw
    rcases mem_cons.1 hw with rfl | hw
    · have hname : '\n' ∉ libPathName := by decide
      simp [Var.text, hname, hlib]
    · exact (henv w (mem_of_mem_filter hw)).text
  rw [hlines, flatMap_cons, mem_append, mem_flatMap]
  simp [and_assoc]

/-- **The target gets exactly the variables of the library, with their values, if and only
if** each of them has a value that is not empty, has no `=` and fits in the reader's buffer
with its name, and every variable that only begins with `APPVIE` is quiet. -/
theorem attach_environment (libPath : List Char) (environ : List Var)
    (hlib : '\n' ∉ libPath) (henv : ∀ v ∈ environ, OneLine v) :
    (∀ v, v ∈ initEnv (attachFile libPath environ) ↔ v ∈ expected libPath environ) ↔
      (∀ v ∈ expected libPath environ, Carried v) ∧
        ∀ v ∈ environ, writes v = true → ¬ Prefixed v → Quiet libPath environ v := by
  have hname : libPathName ≠ [] ∧ '=' ∉ libPathName ∧ '\n' ∉ libPathName := by decide
  have hlibLine : OneLine (libPathName, libPath) := ⟨hname.2.1, hname.2.2, hlib⟩
  constructor
  · intro h
    refine ⟨fun v hv => mem_initEnv ((h v).2 hv), ?_⟩
    intro v hv hw hp p hpiece w hset
    apply (h w).1
    rw [mem_initEnv_attachFile hlib henv]
    refine Or.inr ⟨v, hv, hw, ?_⟩
    rw [line, initEnv_pieces (henv v hv).text]
    exact mem_flatMap.2 ⟨p, hpiece, hset⟩
  · rintro ⟨hcarried, hquiet⟩ v
    have hfirst : initEnv (line (libPathName, libPath)) = [(libPathName, libPath)] :=
      initEnv_carried hname.1 hlibLine (hcarried _ (by simp [expected]))
    have hown : ∀ w ∈ environ, Prefixed w → initEnv (line w) = [w] := by
      intro w hw hp
      exact initEnv_carried hp.ne_nil (henv w hw) (hcarried w (by simp [expected, hw, hp]))
    rw [mem_initEnv_attachFile hlib henv, hfirst]
    constructor
    · rintro (h | ⟨w, hw, hwrites, h⟩)
      · obtain rfl := mem_singleton.1 h
        simp [expected]
      · by_cases hp : Prefixed w
        · rw [hown w hw hp] at h
          obtain rfl := mem_singleton.1 h
          simp [expected, hw, hp]
        · rw [line, initEnv_pieces (henv w hw).text] at h
          obtain ⟨p, hpiece, hset⟩ := mem_flatMap.1 h
          exact hquiet w hw hwrites hp p hpiece v hset
    · intro h
      rcases mem_cons.1 h with rfl | h
      · exact Or.inl (mem_singleton_self _)
      · obtain ⟨hv, hp⟩ := mem_filter.1 h
        have hp : Prefixed v := of_decide_eq_true hp
        refine Or.inr ⟨v, hv, writes_of_prefixed hp, ?_⟩
        rw [hown v hv hp]
        exact mem_singleton_self v

def homeEnviron : List Var :=
  [("HOME".toList, "a=b".toList), ("APPVIEW_HOME".toList, "/tmp".toList),
    ("APPVIEWER".toList, [])]

theorem attach_environment_home : ("APPVIEW_HOME".toList, "/tmp".toList) ∈
        initEnv (attachFile "/lib.so".toList homeEnviron) ∧
      ("HOME".toList, "a=b".toList) ∉ initEnv (attachFile "/lib.so".toList homeEnviron) := by
  have hlines : ∀ v ∈ homeEnviron, OneLine v :=
    fun v hv => of_decide_eq_true (all_eq_true.1 (by decide : homeEnviron.all OneLine) v hv)
  have hcarried : ∀ v ∈ expected "/lib.so".toList homeEnviron, Carried v := by
    intro v hv
    exact of_decide_eq_true (all_eq_true.1
      (by decide : (expected "/lib.so".toList homeEnviron).all Carried) v hv)
  have h := (attach_environment "/lib.so".toList homeEnviron (by decide) hlines).2 ⟨hcarried, ?_⟩
  · exact ⟨(h _).2 (by decide), fun hmem => absurd ((h _).1 hmem) (by decide)⟩
  intro v hv hw hp
  -- only the empty one is written without being of the library
  obtain rfl : v = ("APPVIEWER".toList, []) := by
    simp only [homeEnviron, mem_cons, not_mem_nil, or_false] at hv
    rcases hv with rfl | rfl | rfl
    · exact absurd hw (by decide)
    · exact absurd (by decide) hp
    · rfl
  exact (quiet_short hw hp (by decide) (by decide)).2 (forall_mem_nil _)

/-- The value `a=b` does not arrive: the target gets `a`. -/
theorem attach_environment_equals : OneLine ("APPVIEW_CRIBL".toList, "a=b".toList) ∧
    initEnv (attachFile "/lib.so".toList [("APPVIEW_CRIBL".toList, "a=b".toList)]) =
        [("APPVIEW_LIB_PATH".toList, "/lib.so".toList), ("APPVIEW_CRIBL".toList, "a".toList)] ∧
    ("APPVIEW_CRIBL".toList, "a=b".toList) ∈
      expected "/lib.so".toList [("APPVIEW_CRIBL".toList, "a=b".toList)] := by
  decide +kernel

end AppView.Attach

import AppView.Framework.Json

/-!
# Container configurations

`ociModifyCfg` edits the configuration of a container so that the library is loaded in it:
`LD_PRELOAD` and a marker in the environment, mounts, and a hook that is run when the container
starts.
-/

namespace AppView.Oci

open Framework List Option

abbrev Text : Type := List Char

abbrev Doc : Type := Json Text

/-! ## The new entry -/

structure Buffer where
  size : ℕ
  text : Text

def Buffer.strncpy (b : Buffer) (src : Text) : Option Buffer :=
  if src.length ≤ b.size then some { b with text := src } else none

def Buffer.strcat (b : Buffer) (src : Text) : Option Buffer :=
  if b.text.length + src.length < b.size then some { b with text := b.text ++ src } else none

def ldPreload : Text := "LD_PRELOAD=".toList

def library : Text := "/opt/appview/libappview.so".toList

def setupDone : Text := "APPVIEW_SETUP_DONE=true".toList

def newLdprelLen (strItem : Text) : ℕ := strItem.length + (library ++ [':']).length

def newLdPreloadLib (slack : ℕ → ℕ) (strItem : Text) : Option Text := do
  let buf : Buffer := ⟨newLdprelLen strItem + slack (newLdprelLen strItem), []⟩
  let buf ← buf.strncpy (ldPreload ++ library ++ [':'])
  let buf ← buf.strcat (strItem.drop ldPreload.length)
  return buf.text

/-! ## The edit -/

inductive Scan where
  | fault
  | done
  | absent
  | found (items : List (Text × Doc))

def scanEnv (slack : ℕ → ℕ) : List (Text × Doc) → Scan
  | [] => .absent
  | (name, item) :: items =>
    match item with
    | .string strItem =>
      if ldPreload.isPrefixOf strItem then
        match newLdPreloadLib slack strItem with
        | some entry => .found ((default, .string entry) :: items)
        | none => .fault
      else if setupDone.isPrefixOf strItem then .done
      else
        match scanEnv slack items with
        | .found items => .found ((name, item) :: items)
        | r => r
    | _ => .fault

inductive Outcome where
  | undefined
  | null
  | edited (json : Doc)

def modifyEnv (slack : ℕ → ℕ) (procNode : Doc) : Outcome :=
  let marker : Doc := .string setupDone
  match procNode.item "env".toList with
  | some envNodeArr =>
    match scanEnv slack envNodeArr.children with
    | .fault => .undefined
    | .done => .null
    | .found items =>
      .edited (procNode.setItem "env".toList ((envNodeArr.withChildren items).push marker))
    | .absent => .edited (procNode.setItem "env".toList
        ((envNodeArr.push (.string (ldPreload ++ library))).push marker))
  | none => .edited (procNode.setItem "env".toList
      (.array [.string (ldPreload ++ library), marker]))

def mountNode (path : Text) : Doc :=
  .object [("destination".toList, .string path), ("type".toList, .string "bind".toList),
    ("source".toList, .string path),
    ("options".toList, .array [.string "rbind".toList, .string "rprivate".toList])]

def addMount (json : Doc) (path : Text) : Doc :=
  let mountNodeArr := (json.item "mounts".toList).getD (.array [])
  json.setItem "mounts".toList (mountNodeArr.push (mountNode path))

def mountPath (unixSocketPath : Option Text) : List Text :=
  "/usr/lib/appview/".toList :: unixSocketPath.toList

def startContainerNode (appviewPath : Text) : Doc :=
  .object [("path".toList, .string appviewPath),
    ("args".toList, .array [.string appviewPath, .string "extract".toList,
      .string "-p".toList, .string "/opt/appview".toList])]

def addHook (appviewPath : Text) (json : Doc) : Doc :=
  let hooksNode := (json.item "hooks".toList).getD (.object [])
  let startContainerNodeArr := (hooksNode.item "startContainer".toList).getD (.array [])
  json.setItem "hooks".toList (hooksNode.setItem "startContainer".toList
    (startContainerNodeArr.push (startContainerNode appviewPath)))

def ociModifyCfg (slack : ℕ → ℕ) (json : Doc) (appviewPath : Text)
    (unixSocketPath : Option Text) : Outcome :=
  let procNode := (json.item "process".toList).getD (.object [])
  match modifyEnv slack procNode with
  | .edited procNode =>
    let json := json.setItem "process".toList procNode
    .edited (addHook appviewPath ((mountPath unixSocketPath).foldl addMount json))
  | r => r

/-! ## Configurations -/

structure Config where
  members : List (Text × Doc)
  process : List (Text × Doc)
  env : List Text
  mounts : List Doc
  hooks : List (Text × Doc)
  startContainer : List Doc
  process_eq : (memberOf "process".toList members).getD (.object []) = .object process
  env_eq : (memberOf "env".toList process).getD (.array []) = .array (env.map .string)
  mounts_eq : (memberOf "mounts".toList members).getD (.array []) = .array mounts
  hooks_eq : (memberOf "hooks".toList members).getD (.object []) = .object hooks
  startContainer_eq :
    (memberOf "startContainer".toList hooks).getD (.array []) = .array startContainer

def EnvEdited (env env' : List Text) : Prop :=
  (∃ pre value post, env = pre ++ (ldPreload ++ value) :: post ∧
      (∀ e ∈ pre, ¬ ldPreload <+: e) ∧
      env' = pre ++ (ldPreload ++ library ++ ':' :: value) :: post ++ [setupDone]) ∨
    ((∀ e ∈ env, ¬ ldPreload <+: e) ∧ env' = env ++ [ldPreload ++ library, setupDone])

def Edited (c : Config) (appviewPath : Text) (unixSocketPath : Option Text)
    (members : List (Text × Doc)) : Prop :=
  ∃ env process hooks afterProcess afterMounts,
    EnvEdited c.env env ∧
    Sets "env".toList (.array (env.map .string)) c.process process ∧
    Sets "process".toList (.object process) c.members afterProcess ∧
    Sets "mounts".toList (.array (c.mounts ++ (mountPath unixSocketPath).map mountNode))
      afterProcess afterMounts ∧
    Sets "startContainer".toList (.array (c.startContainer ++ [startContainerNode appviewPath]))
      c.hooks hooks ∧
    Sets "hooks".toList (.object hooks) afterMounts members

def beforePreload (env : List Text) : List Text := env.takeWhile fun e => !ldPreload.isPrefixOf e

def preload (env : List Text) : Option Text := env.find? fun e => ldPreload.isPrefixOf e

def Unmarked (env : List Text) : Prop := ∀ e ∈ beforePreload env, ¬ setupDone <+: e

def Fits (slack : ℕ → ℕ) (env : List Text) : Prop :=
  ∀ e, preload env = some e → 0 < slack (newLdprelLen e)

/-! ## The loop over the environment -/

def strings (env : List Text) : List (Text × Doc) := env.map fun e => (default, .string e)

section Loop

variable {slack : ℕ → ℕ} {pre env : List Text} {items : List (Text × Doc)} (slack : ℕ → ℕ)

theorem newLdPreloadLib_eq (value : Text) : newLdPreloadLib slack (ldPreload ++ value) =
      if 0 < slack (newLdprelLen (ldPreload ++ value)) then
        some (ldPreload ++ library ++ ':' :: value)
      else none := by
  have hlen : newLdprelLen (ldPreload ++ value) =
      (ldPreload ++ library ++ [':']).length + value.length := by
    simp only [newLdprelLen, length_append]
    omega
  unfold newLdPreloadLib
  generalize slack (newLdprelLen (ldPreload ++ value)) = extra
  have hcopy : Buffer.strncpy ⟨newLdprelLen (ldPreload ++ value) + extra, []⟩
      (ldPreload ++ library ++ [':']) =
        some ⟨newLdprelLen (ldPreload ++ value) + extra, ldPreload ++ library ++ [':']⟩ := by
    rw [Buffer.strncpy, if_pos]
    dsimp only
    omega
  simp only [hcopy, bind_eq_bind, bind_some, drop_left, Buffer.strcat]
  by_cases hextra : 0 < extra
  · rw [if_pos hextra, if_pos (by omega)]
    simp
  · rw [if_neg hextra, if_neg (by omega)]
    rfl

theorem scanEnv_append (items : List (Text × Doc))
    (hpre : ∀ e ∈ pre, ¬ ldPreload <+: e) (hmark : ∀ e ∈ pre, ¬ setupDone <+: e) :
    scanEnv slack (strings pre ++ items) =
      match scanEnv slack items with
      | .found items => .found (strings pre ++ items)
      | r => r := by
  induction pre with
  | nil => cases h : scanEnv slack items <;> simp [strings, h]
  | cons e pre ih =>
    rw [forall_mem_cons] at hpre hmark
    have hstrings : strings (e :: pre) = (default, .string e) :: strings pre := rfl
    rw [hstrings, cons_append, scanEnv, if_neg (by simpa using hpre.1),
      if_neg (by simpa using hmark.1), ih hpre.2 hmark.2]
    cases scanEnv slack items <;> rfl

theorem scanEnv_marked (items : List (Text × Doc)) (hpre : ∀ e ∈ pre, ¬ ldPreload <+: e)
    (hmark : ∃ e ∈ pre, setupDone <+: e) : scanEnv slack (strings pre ++ items) = .done := by
  induction pre with
  | nil =>
    obtain ⟨e, he, -⟩ := hmark
    cases he
  | cons e pre ih =>
    rw [forall_mem_cons] at hpre
    have hstrings : strings (e :: pre) = (default, .string e) :: strings pre := rfl
    rw [hstrings, cons_append, scanEnv, if_neg (by simpa using hpre.1)]
    split_ifs with hfirst
    · rfl
    · have hrest : ∃ e ∈ pre, setupDone <+: e := by
        obtain ⟨e', he', hmark⟩ := hmark
        rcases mem_cons.1 he' with rfl | he'
        · exact absurd (by simpa using hmark) hfirst
        · exact ⟨e', he', hmark⟩
      rw [ih hpre.2 hrest]

theorem not_isPrefixOf {e : Text} : (!ldPreload.isPrefixOf e) = true ↔ ¬ ldPreload <+: e := by
  rw [Bool.not_eq_true', Bool.eq_false_iff, ne_eq, isPrefixOf_iff_prefix]

theorem beforePreload_append (hpre : ∀ e ∈ pre, ¬ ldPreload <+: e) (value : Text)
    (post : List Text) : beforePreload (pre ++ (ldPreload ++ value) :: post) = pre := by
  rw [beforePreload, takeWhile_append_of_pos fun e he => not_isPrefixOf.2 (hpre e he),
    takeWhile_cons_of_neg (by simp), append_nil]

theorem beforePreload_self (henv : ∀ e ∈ env, ¬ ldPreload <+: e) : beforePreload env = env :=
  takeWhile_eq_self_iff.2 fun e he => not_isPrefixOf.2 (henv e he)

theorem env_cases (env : List Text) :
    ((∀ e ∈ env, ¬ ldPreload <+: e) ∧ beforePreload env = env ∧ preload env = none) ∨
      ∃ pre value post, env = pre ++ (ldPreload ++ value) :: post ∧
        (∀ e ∈ pre, ¬ ldPreload <+: e) ∧ beforePreload env = pre ∧
        preload env = some (ldPreload ++ value) := by
  rcases hfind : preload env with _ | e
  · have hall : ∀ e ∈ env, ¬ ldPreload <+: e := by
      intro e he
      simpa using find?_eq_none.1 hfind e he
    exact .inl ⟨hall, beforePreload_self hall, rfl⟩
  · obtain ⟨he, pre, post, rfl, hpre⟩ := find?_eq_some_iff_append.1 hfind
    obtain ⟨value, rfl⟩ : ldPreload <+: e := by simpa using he
    have hpre : ∀ e ∈ pre, ¬ ldPreload <+: e := fun e he => not_isPrefixOf.1 (hpre e he)
    exact .inr ⟨pre, value, post, rfl, hpre, beforePreload_append hpre value post, rfl⟩

end Loop

/-! ## The edited configuration -/

namespace Config

variable {slack : ℕ → ℕ} (c : Config) (env : List Text) (appviewPath : Text)
  (unixSocketPath : Option Text)

def edit : Config where
  process := put "env".toList (.array (env.map .string)) c.process
  env := env
  mounts := c.mounts ++ (mountPath unixSocketPath).map mountNode
  startContainer := c.startContainer ++ [startContainerNode appviewPath]
  hooks := put "startContainer".toList
    (.array (c.startContainer ++ [startContainerNode appviewPath])) c.hooks
  members := put "hooks".toList (.object (put "startContainer".toList
      (.array (c.startContainer ++ [startContainerNode appviewPath])) c.hooks))
    (put "mounts".toList (.array (c.mounts ++ (mountPath unixSocketPath).map mountNode))
      (put "process".toList
        (.object (put "env".toList (.array (env.map .string)) c.process)) c.members))
  process_eq := by
    rw [memberOf_put_of_ne (by decide), memberOf_put_of_ne (by decide), memberOf_put_self]
    rfl
  env_eq := by
    rw [memberOf_put_self]
    rfl
  mounts_eq := by
    rw [memberOf_put_of_ne (by decide), memberOf_put_self]
    rfl
  hooks_eq := by
    rw [memberOf_put_self]
    rfl
  startContainer_eq := by
    rw [memberOf_put_self]
    rfl

end Config

theorem foldl_addMount {paths : List Text} (hpaths : paths ≠ []) {ms : List (Text × Doc)}
    {mounts : List Doc} (h : (memberOf "mounts".toList ms).getD (.array []) = .array mounts) :
    paths.foldl addMount (.object ms) =
      .object (put "mounts".toList (.array (mounts ++ paths.map mountNode)) ms) := by
  induction paths generalizing ms mounts with
  | nil => exact absurd rfl hpaths
  | cons path paths ih =>
    have hadd : addMount (.object ms) path =
        .object (put "mounts".toList (.array (mounts ++ [mountNode path])) ms) := by
      simp only [addMount, Json.item_object, h, Json.push_array, Json.setItem_object]
    rw [foldl_cons, hadd]
    by_cases hrest : paths = []
    · subst hrest
      rfl
    · rw [ih hrest (by rw [memberOf_put_self]; rfl), put_put]
      simp

section Edit

variable {slack : ℕ → ℕ} {c : Config}

theorem modifyEnv_config (c : Config) : modifyEnv slack (.object c.process) =
    match scanEnv slack (strings c.env) with
    | .fault => .undefined
    | .done => .null
    | .found items => .edited (.object (put "env".toList
        (.array (items.map Prod.snd ++ [.string setupDone])) c.process))
    | .absent => .edited (.object (put "env".toList
        (.array ((c.env ++ [ldPreload ++ library, setupDone]).map .string)) c.process)) := by
  have henv := c.env_eq
  rw [modifyEnv, Json.item_object]
  rcases hmember : memberOf "env".toList c.process with _ | e
  · rw [hmember] at henv
    have hempty : c.env = [] := by
      simpa using (Json.array.inj henv).symm
    rw [hempty]
    rfl
  · rw [hmember, getD_some] at henv
    subst henv
    have hchildren : (Json.array (c.env.map Json.string) : Doc).children = strings c.env := by
      simp [Json.children, strings, Function.comp_def]
    dsimp only
    rw [hchildren]
    cases scanEnv slack (strings c.env) with
    | fault => rfl
    | done => rfl
    | found items => simp [Json.withChildren]
    | absent => simp

theorem ociModifyCfg_config (c : Config) (appviewPath : Text) (unixSocketPath : Option Text) :
    ociModifyCfg slack (.object c.members) appviewPath unixSocketPath =
      match modifyEnv slack (.object c.process) with
      | .edited procNode => .edited (addHook appviewPath ((mountPath unixSocketPath).foldl addMount
          (.object (put "process".toList procNode c.members))))
      | r => r := by
  rw [ociModifyCfg, Json.item_object, c.process_eq]
  rfl

theorem finish_config (c : Config) (env : List Text) (appviewPath : Text)
    (unixSocketPath : Option Text) : addHook appviewPath ((mountPath unixSocketPath).foldl addMount
        (.object (put "process".toList
          (.object (put "env".toList (.array (env.map .string)) c.process)) c.members))) =
      .object (c.edit env appviewPath unixSocketPath).members := by
  have hmounts : (memberOf "mounts".toList (put "process".toList
      (.object (put "env".toList (.array (env.map .string)) c.process)) c.members)).getD
        (.array []) = .array c.mounts := by
    rw [memberOf_put_of_ne (by decide)]
    exact c.mounts_eq
  rw [foldl_addMount (by simp [mountPath]) hmounts, addHook, Json.item_object,
    memberOf_put_of_ne (by decide), memberOf_put_of_ne (by decide), c.hooks_eq, Json.item_object,
    c.startContainer_eq, Json.push_array, Json.setItem_object, Json.setItem_object]
  rfl

theorem ociModifyCfg_marked (h : ¬ Unmarked c.env) (appviewPath : Text)
    (unixSocketPath : Option Text) :
    ociModifyCfg slack (.object c.members) appviewPath unixSocketPath = .null := by
  have hmark : ∃ e ∈ beforePreload c.env, setupDone <+: e := by
    simpa [Unmarked] using h
  have hdone : scanEnv slack (strings c.env) = .done := by
    rcases env_cases c.env with ⟨hall, hbefore, -⟩ | ⟨pre, value, post, henv, hpre, hbefore, -⟩
    · rw [hbefore] at hmark
      have hscan := scanEnv_marked slack [] hall hmark
      rwa [append_nil] at hscan
    · rw [hbefore] at hmark
      rw [henv, strings, map_append]
      exact scanEnv_marked slack _ hpre hmark
  rw [ociModifyCfg_config, modifyEnv_config, hdone]

theorem ociModifyCfg_unmarked (slack : ℕ → ℕ) (h : Unmarked c.env) (appviewPath : Text)
    (unixSocketPath : Option Text) : (¬ Fits slack c.env ∧
        ociModifyCfg slack (.object c.members) appviewPath unixSocketPath = .undefined) ∨
      (Fits slack c.env ∧ ∃ env, EnvEdited c.env env ∧
        ociModifyCfg slack (.object c.members) appviewPath unixSocketPath =
          .edited (.object (c.edit env appviewPath unixSocketPath).members)) := by
  rw [ociModifyCfg_config, modifyEnv_config]
  rcases env_cases c.env with
    ⟨hall, hbefore, hnone⟩ | ⟨pre, value, post, henv, hpre, hbefore, hsome⟩
  · have habsent : scanEnv slack (strings c.env) = .absent := by
      have hmark : ∀ e ∈ c.env, ¬ setupDone <+: e := by rwa [Unmarked, hbefore] at h
      have hscan := scanEnv_append slack [] hall hmark
      rwa [append_nil] at hscan
    refine .inr ⟨fun e he => ?_, _, .inr ⟨hall, rfl⟩, ?_⟩
    · rw [hnone] at he
      cases he
    · rw [habsent]
      dsimp only
      rw [finish_config]
  · have hmark : ∀ e ∈ pre, ¬ setupDone <+: e := by rwa [Unmarked, hbefore] at h
    have hfits : Fits slack c.env ↔ 0 < slack (newLdprelLen (ldPreload ++ value)) := by
      simp [Fits, hsome]
    have hscan : scanEnv slack (strings c.env) =
        if 0 < slack (newLdprelLen (ldPreload ++ value)) then
          .found (strings (pre ++ (ldPreload ++ library ++ ':' :: value) :: post))
        else .fault := by
      rw [henv, strings, map_append, map_cons]
      refine (scanEnv_append slack _ hpre hmark).trans ?_
      rw [scanEnv, if_pos (by simp), newLdPreloadLib_eq]
      split_ifs <;> simp [strings]
    rw [hscan, hfits]
    by_cases hroom : 0 < slack (newLdprelLen (ldPreload ++ value))
    · refine .inr ⟨hroom, _, .inl ⟨pre, value, post, henv, hpre, rfl⟩, ?_⟩
      rw [if_pos hroom, ← finish_config]
      simp [strings, Function.comp_def]
    · rw [if_neg hroom]
      exact .inl ⟨hroom, rfl⟩

theorem EnvEdited.unmarked {env env' : List Text} (h : EnvEdited env env')
    (henv : Unmarked env) : Unmarked env' := by
  rcases h with ⟨pre, value, post, rfl, hpre, rfl⟩ | ⟨hall, rfl⟩
  · rw [Unmarked, beforePreload_append hpre] at henv
    rw [Unmarked, append_assoc, cons_append, append_assoc, beforePreload_append hpre]
    exact henv
  · rw [Unmarked, beforePreload_self hall] at henv
    rw [Unmarked, beforePreload_append hall]
    exact henv

theorem ociModifyCfg_eq_edited {json : Doc} {appviewPath : Text} {unixSocketPath : Option Text} :
    ociModifyCfg slack (.object c.members) appviewPath unixSocketPath = .edited json →
      (Unmarked c.env ∧ Fits slack c.env) ∧ ∃ env, EnvEdited c.env env ∧
        json = .object (c.edit env appviewPath unixSocketPath).members := by
  intro h
  by_cases hmark : Unmarked c.env
  · rcases ociModifyCfg_unmarked slack hmark appviewPath unixSocketPath with
      ⟨-, hundefined⟩ | ⟨hfits, env, henv, hedited⟩
    · rw [hundefined] at h
      cases h
    · rw [hedited] at h
      cases h
      exact ⟨⟨hmark, hfits⟩, env, henv, rfl⟩
  · rw [ociModifyCfg_marked hmark] at h
    cases h

end Edit

/-! ## The results -/

/-- **The rest of a configuration is kept**: the library, its mounts and its hook are added
and nothing else is changed, if and only if no entry of the environment in front of the
first `LD_PRELOAD` starts like the marker and, if there is an `LD_PRELOAD`, the allocator
gives the byte that the code forgets to ask for. -/
theorem oci_edit (slack : ℕ → ℕ) (c : Config) (appviewPath : Text) (unixSocketPath : Option Text) :
    (∃ members, ociModifyCfg slack (.object c.members) appviewPath unixSocketPath =
        .edited (.object members) ∧ Edited c appviewPath unixSocketPath members) ↔
      Unmarked c.env ∧ Fits slack c.env := by
  constructor
  · rintro ⟨members, hmembers, -⟩
    exact (ociModifyCfg_eq_edited hmembers).1
  · rintro ⟨hmark, hfits⟩
    rcases ociModifyCfg_unmarked slack hmark appviewPath unixSocketPath with
      ⟨hnot, -⟩ | ⟨-, env, henv, hedited⟩
    · exact absurd hfits hnot
    · exact ⟨_, hedited, env, _, _, _, _, henv, sets_put .., sets_put .., sets_put ..,
        sets_put .., sets_put ..⟩

def envConfig (env : List Text) : Config where
  members := [("process".toList, .object [("env".toList, .array (env.map .string))])]
  process := [("env".toList, .array (env.map .string))]
  env := env
  mounts := []
  hooks := []
  startContainer := []
  process_eq := rfl
  env_eq := rfl
  mounts_eq := rfl
  hooks_eq := rfl
  startContainer_eq := rfl

/-- An entry that only starts like the marker makes the edit decline, and an `LD_PRELOAD`
overruns a buffer of just the size that is asked for. -/
theorem oci_edit_declines : (setupDone ∉ ["APPVIEW_SETUP_DONE=true1".toList] ∧
      ociModifyCfg (fun _ => 1) (.object (envConfig ["APPVIEW_SETUP_DONE=true1".toList]).members)
        "/appview".toList none = .null) ∧
      ociModifyCfg (fun _ => 0) (.object (envConfig ["LD_PRELOAD=/a.so".toList]).members)
        "/appview".toList none = .undefined := by
  refine ⟨⟨by decide, ?_⟩, ?_⟩ <;> rfl

/-- **A configuration that was edited is never recognised**: the second edit declines only
where the first one gave no configuration. -/
theorem oci_edit_twice (slack : ℕ → ℕ) (c : Config) (appviewPath : Text)
    (unixSocketPath : Option Text) :
    (∀ json, ociModifyCfg slack (.object c.members) appviewPath unixSocketPath = .edited json →
        ociModifyCfg slack json appviewPath unixSocketPath = .null) ↔
      ¬ (Unmarked c.env ∧ Fits slack c.env) := by
  constructor
  · rintro h ⟨hmark, hfits⟩
    rcases ociModifyCfg_unmarked slack hmark appviewPath unixSocketPath with
      ⟨hnot, -⟩ | ⟨-, env, henv, hedited⟩
    · exact hnot hfits
    · have hnull := h _ hedited
      have hagain : Unmarked (c.edit env appviewPath unixSocketPath).env := henv.unmarked hmark
      rcases ociModifyCfg_unmarked slack hagain appviewPath unixSocketPath with
        ⟨-, hundefined⟩ | ⟨-, env', -, hedited'⟩
      · rw [hundefined] at hnull
        cases hnull
      · rw [hedited'] at hnull
        cases hnull
  · intro h json hjson
    exact absurd (ociModifyCfg_eq_edited hjson).1 h

/-- A configuration with an empty environment is edited, and so is the result. -/
theorem oci_edit_twice_empty :
    ∃ json, ociModifyCfg (fun _ => 1) (.object (envConfig []).members) "/appview".toList none =
        .edited json ∧
      ociModifyCfg (fun _ => 1) json "/appview".toList none ≠ .null := by
  refine ⟨_, rfl, ?_⟩
  intro h
  cases h

/-- **The new entry fills its buffer**: its text takes all the bytes that are asked for, so that
the final NUL is inside if and only if the allocator gives one byte more. -/
theorem preload_fits_iff (slack : ℕ → ℕ) {c : Config} {pre post : List Text} {value : Text}
    (henv : c.env = pre ++ (ldPreload ++ value) :: post)
    (hpre : ∀ e ∈ pre, ¬ ldPreload <+: e ∧ ¬ setupDone <+: e) (appviewPath : Text)
    (unixSocketPath : Option Text) :
    newLdprelLen (ldPreload ++ value) = (ldPreload ++ library ++ ':' :: value).length ∧
      (ociModifyCfg slack (.object c.members) appviewPath unixSocketPath ≠ .undefined ↔
        0 < slack (newLdprelLen (ldPreload ++ value))) := by
  have hmark : Unmarked c.env := by
    rw [henv, Unmarked, beforePreload_append fun e he => (hpre e he).1]
    exact fun e he => (hpre e he).2
  have hpreload : preload c.env = some (ldPreload ++ value) :=
    find?_eq_some_iff_append.2
      ⟨by simp, pre, post, henv, fun e he => not_isPrefixOf.2 (hpre e he).1⟩
  have hfits : Fits slack c.env ↔ 0 < slack (newLdprelLen (ldPreload ++ value)) := by
    simp [Fits, hpreload]
  refine ⟨by simp only [newLdprelLen, length_append, length_cons, length_nil]; omega, ?_⟩
  rw [← hfits]
  rcases ociModifyCfg_unmarked slack hmark appviewPath unixSocketPath with
    ⟨hnot, hundefined⟩ | ⟨hroom, env, -, hedited⟩
  · simp [hundefined, hnot]
  · simp [hedited, hroom]

theorem preload_fits_iff_first : newLdprelLen "LD_PRELOAD=/a.so".toList = 43 ∧
    ociModifyCfg (fun _ => 1) (.object (envConfig ["LD_PRELOAD=/a.so".toList]).members)
      "/appview".toList none ≠ .undefined :=
  have h := @preload_fits_iff (fun _ => 1) (envConfig ["LD_PRELOAD=/a.so".toList]) [] []
    "/a.so".toList rfl (by simp) "/appview".toList none
  ⟨h.1, h.2.2 Nat.one_pos⟩

theorem preload_overruns :
    ociModifyCfg (fun _ => 0) (.object (envConfig ["LD_PRELOAD=/b.so".toList]).members)
      "/appview".toList none = .undefined := rfl

end AppView.Oci

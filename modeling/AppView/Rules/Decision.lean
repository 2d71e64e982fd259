import AppView.Rules.File

/-!
# Who is viewed by the rules

The rules comment says which processes are viewed: those that match an entry of an allow list
and no entry of a deny list (`Viewed`).
-/

namespace AppView.Rules

open AppView.Framework List

/-! ## What the rules comment says -/

structure Process where
  name : String
  cmdLine : String

namespace Process

def Matches (p : Process) (f : String × String) : Prop :=
  (f.1 = procnameNode ∧ (f.2 = p.name ∨ f.2 = matchAllVal)) ∨
  (f.1 = argNode ∧ f.2 ≠ "" ∧ (f.2.toList <:+: p.cmdLine.toList ∨ f.2 = matchAllVal))

instance (p : Process) (f : String × String) : Decidable (p.Matches f) := by
  unfold Matches
  infer_instance

def MatchesEntry (p : Process) (e : Entry) : Prop := ∃ f ∈ fields e, p.Matches f

instance (p : Process) (e : Entry) : Decidable (p.MatchesEntry e) := by
  unfold MatchesEntry
  infer_instance

end Process

def listsOf (key : String) : Option Node → List (List Node)
  | some (.mapping pairs) => listsAt key pairs
  | _ => []

def entriesOf (key : String) (doc : Option Node) : List Entry :=
  (listsOf key doc).flatMap entries

/-- **The rules.** Some allow entry matches and no deny entry does. -/
def Viewed (p : Process) (doc : Option Node) : Prop :=
  (∃ e ∈ entriesOf allowNode doc, p.MatchesEntry e) ∧
  ¬ ∃ e ∈ entriesOf denyNode doc, p.MatchesEntry e

instance (p : Process) (doc : Option Node) : Decidable (Viewed p doc) := by
  unfold Viewed
  infer_instance

/-! ## What the code reads -/

def entriesRead (key : String) (doc : Option Node) : List Entry :=
  (listsOf key doc).flatMap leading

def fieldsRead (key : String) (doc : Option Node) : List (String × String) :=
  ((listsOf key doc).flatMap leading).flatMap fields

def Process.Rejects (p : Process) (f : String × String) : Prop :=
  f.1 = argNode ∧ f.2 ≠ "" ∧ ¬ p.Matches f

instance (p : Process) (f : String × String) : Decidable (p.Rejects f) := by
  unfold Process.Rejects
  infer_instance

def denyWord (p : Process) (f : String × String) : Option ProcStatus :=
  if p.Matches f then some .denied else none

/-! ## Walks over the lists -/

section
variable {σ τ : Type*} {R : σ → τ → Prop} {allow deny : Entry → σ → σ} {s : σ} {t : τ}

theorem processRoots_entries {ga gd : τ → Entry → τ}
    (hallow : ∀ s t e, R s t → R (allow e s) (ga t e))
    (hdeny : ∀ s t e, R s t → R (deny e s) (gd t e)) (h : R s t) (doc : Option Node) :
    R (processRoots (processSeq allow) (processSeq deny) doc s)
      ((entriesRead denyNode doc).foldl gd ((entriesRead allowNode doc).foldl ga t)) := by
  -- one pass: the lists under one key, and of each its leading entries
  have pass : ∀ {key : String} {body : Entry → σ → σ} {g : τ → Entry → τ},
      (∀ s t e, R s t → R (body e s) (g t e)) → ∀ {s t}, R s t →
      ∀ pairs, R (pairs.foldl (dispatch [⟨.sequence, key, processSeq body⟩]) s)
        ((entriesRead key (some (.mapping pairs))).foldl g t) := by
    intro key body g hbody s t h pairs
    rw [entriesRead, foldl_flatMap]
    refine dispatch_simulates ?_ h pairs
    intro s t items h
    exact eachEntry_simulates hbody h items
  cases doc with
  | none => exact h
  | some root =>
    cases root with
    | scalar value => exact h
    | sequence items => exact h
    | mapping pairs => exact pass hdeny (pass hallow h pairs) pairs

theorem processRoots_simulates {ga gd : τ → String × String → τ}
    (hallow : ∀ s t e, R s t → R (allow e s) ((fields e).foldl ga t))
    (hdeny : ∀ s t e, R s t → R (deny e s) ((fields e).foldl gd t)) (h : R s t)
    (doc : Option Node) : R (processRoots (processSeq allow) (processSeq deny) doc s)
      ((fieldsRead denyNode doc).foldl gd ((fieldsRead allowNode doc).foldl ga t)) := by
  have flat : ∀ (key : String) (g : τ → String × String → τ) (t : τ),
      (fieldsRead key doc).foldl g t =
        (entriesRead key doc).foldl (fun t e => (fields e).foldl g t) t :=
    fun _ _ _ => foldl_flatMap
  rw [flat, flat]
  exact processRoots_entries hallow hdeny h doc

end

/-! ## The handlers -/

section
variable {Config : Type*}

structure Reads (p : Process) (fCfg : RulesCfg Config) (status : ProcStatus) : Prop where
  procName : fCfg.procName = p.name
  procCmdLine : fCfg.procCmdLine = p.cmdLine
  status_eq : fCfg.status = status

theorem length_pos_iff (s : String) : 0 < s.length ↔ s ≠ "" := by
  rw [Nat.pos_iff_ne_zero, ne_eq, String.length_eq_zero_iff]

theorem matches_procname (p : Process) (value : String) :
    p.Matches (procnameNode, value) ↔ p.name = value ∨ matchAllVal = value := by
  have hne : procnameNode ≠ argNode := by decide
  simp only [Process.Matches, hne, false_and, or_false, true_and]
  rw [eq_comm, @eq_comm _ value]

theorem matches_arg (p : Process) (value : String) : p.Matches (argNode, value) ↔
      0 < value.length ∧ ((strstr p.cmdLine value).isSome ∨ matchAllVal = value) := by
  have hne : argNode ≠ procnameNode := by decide
  simp only [Process.Matches, hne, false_and, false_or, true_and]
  rw [length_pos_iff, strstr, strstrFrom_isSome_iff, @eq_comm _ value matchAllVal]

section Word

variable {τ : Type*} (p : Process) (yes no : τ)

/-- What a field of an allow list says. -/
def Process.word (f : String × String) : Option τ :=
  if p.Matches f then some yes else if p.Rejects f then some no else none

theorem word_procname (value : String) : p.word yes no (procnameNode, value) =
      if p.name = value ∨ matchAllVal = value then some yes else none := by
  have hne : procnameNode ≠ argNode := by decide
  simp [Process.word, Process.Rejects, hne, matches_procname]

theorem word_arg (value : String) : p.word yes no (argNode, value) =
      if 0 < value.length then
        if (strstr p.cmdLine value).isSome ∨ matchAllVal = value then some yes else some no
      else none := by
  simp only [Process.word, Process.Rejects, matches_arg, ← length_pos_iff]
  split_ifs <;> simp_all

variable {yes no}

theorem word_eq_iff (hne : yes ≠ no) (f : String × String) :
    p.word yes no f = some yes ↔ p.Matches f := by
  unfold Process.word
  split_ifs <;> simp_all [hne.symm]

theorem word_only_iff (hne : yes ≠ no) (f : String × String) :
    (∀ y, p.word yes no f = some y → y = yes) ↔ ¬ p.Rejects f := by
  unfold Process.word
  split_ifs with hm hr
  · simp [Process.Rejects, hm]
  · simp [hr, hne.symm]
  · simp [hr]

variable {p}

theorem allowRules_simulates {R : RulesCfg Config → τ → Prop}
    (hp : ∀ s t, R s t → s.procName = p.name ∧ s.procCmdLine = p.cmdLine)
    (hyes : ∀ s t, R s t → R { s with status := .allowed, rulesMatch := true } yes)
    (hno : ∀ s t, R s t → R { s with status := .denied, rulesMatch := false } no)
    {s : RulesCfg Config} {t : τ} (h : R s t) (e : Entry) :
    R (e.foldl (processKeyValuePairRules allowRules) s)
      ((fields e).foldl (hear (p.word yes no)) t) := by
  refine scalars_simulate ?_ ?_ ?_ h e
  · intro s t v hs
    rw [hear, word_procname, processAllowProcNameScalar, ← (hp s t hs).1]
    split_ifs with hv
    · exact hyes s t hs
    · exact hs
  · intro s t v hs
    rw [hear, word_arg, processAllowProcCmdLineScalar, ← (hp s t hs).2]
    split_ifs with hlen hv
    · exact hyes s t hs
    · exact hno s t hs
    · exact hs
  · intro t k v hp ha
    simp [hear, Process.word, Process.Matches, Process.Rejects, hp, ha]

end Word

variable {p : Process} {load : String → Option (Option Node)} {path : String}
    {doc : Option Node}

variable (processRoot : Config → Node → Config)

variable (node : Node) (fCfg : RulesCfg Config) (status : ProcStatus) (e : Entry)

theorem processAllowConfig_reads {status : ProcStatus} (h : Reads p fCfg status) :
    Reads p (processAllowConfig processRoot node fCfg) status := by
  unfold processAllowConfig
  split
  · split_ifs
    · exact ⟨h.procName, h.procCmdLine, h.status_eq⟩
    · exact h
  · exact h

theorem processAllowEntry_reads (h : Reads p fCfg status) :
    Reads p (processAllowEntry processRoot e fCfg)
      ((fields e).foldl (hear (p.word .allowed .denied)) status) := by
  have hrules : Reads p (e.foldl (processKeyValuePairRules allowRules) fCfg)
      ((fields e).foldl (hear (p.word .allowed .denied)) status) :=
    allowRules_simulates (fun _ _ hs => ⟨hs.procName, hs.procCmdLine⟩)
      (fun _ _ hs => ⟨hs.procName, hs.procCmdLine, rfl⟩)
      (fun _ _ hs => ⟨hs.procName, hs.procCmdLine, rfl⟩) h e
  -- the configuration is another pass, which leaves the status
  refine List.foldlRecOn (motive := fun s => Reads p s _) e _ hrules ?_
  intro s hs pair _
  refine dispatch_keeps (P := fun s => Reads p s _) ?_ hs pair
  intro handler hmem node fCfg hf
  obtain rfl := mem_singleton.mp hmem
  exact processAllowConfig_reads processRoot node fCfg hf

theorem processDenyEntry_reads (h : Reads p fCfg status) :
    Reads p (e.foldl (processKeyValuePairRules denyRules) fCfg)
      ((fields e).foldl (hear (denyWord p)) status) := by
  refine scalars_simulate ?_ ?_ ?_ h e
  · intro s t v hs
    simp only [hear, denyWord, matches_procname, processDenyProcNameScalar, ← hs.procName]
    split_ifs with hv
    · exact ⟨hs.procName, hs.procCmdLine, rfl⟩
    · exact hs
  · intro s t v hs
    simp only [hear, denyWord, matches_arg, processDenyProcCmdLineScalar, ← hs.procCmdLine]
    split_ifs with hv
    · exact ⟨hs.procName, hs.procCmdLine, rfl⟩
    · exact hs
  · intro t k v hp ha
    simp [hear, denyWord, Process.Matches, hp, ha]

/-! ## The answer -/

def verdict (p : Process) (doc : Option Node) : ProcStatus :=
  (fieldsRead denyNode doc).foldl (hear (denyWord p))
    ((fieldsRead allowNode doc).foldl (hear (p.word .allowed .denied)) .notFound)

theorem processRulesRootNode_status (p : Process) (cfg : Config) (doc : Option Node) :
    (processRulesRootNode processRoot doc ⟨p.name, p.cmdLine, .notFound, cfg, false⟩).status
      = verdict p doc :=
  (processRoots_simulates (processAllowEntry_reads processRoot) processDenyEntry_reads
    ⟨rfl, rfl, rfl⟩ doc).status_eq

/-- The last of the fields that says anything is for the process. -/
def Process.Favours (p : Process) (fs : List (String × String)) : Prop :=
  ∃ pre f post, fs = pre ++ f :: post ∧ p.Matches f ∧ ∀ g ∈ post, ¬ p.Rejects g

def Favoured (p : Process) (doc : Option Node) : Prop := p.Favours (fieldsRead allowNode doc)

theorem denyWord_only_allowed_iff (p : Process) (f : String × String) :
    (∀ y, denyWord p f = some y → y = .allowed) ↔ ¬ p.Matches f := by
  unfold denyWord
  split_ifs with hm
  · simp [hm]
  · simp [hm]

/-- **The answer of the code.** The last field of the allow lists that says anything
is for the process, and no field that is read of the deny lists matches. -/
theorem verdict_allowed_iff (p : Process) (doc : Option Node) : verdict p doc = .allowed ↔
      Favoured p doc ∧ ∀ f ∈ fieldsRead denyNode doc, ¬ p.Matches f := by
  have hdeny : ∀ f, denyWord p f ≠ some .allowed := by
    intro f
    unfold denyWord
    split_ifs <;> simp
  -- nothing in a deny list says `allowed`, so the allow lists must have left it
  have hlast : verdict p doc = .allowed ↔
      (fieldsRead allowNode doc).foldl (hear (p.word .allowed .denied)) .notFound =
        ProcStatus.allowed ∧
      ∀ f ∈ fieldsRead denyNode doc, ¬ p.Matches f := by
    rw [verdict, foldl_hear_iff]
    simp [hdeny, denyWord_only_allowed_iff]
  rw [hlast, foldl_hear_iff, Favoured, Process.Favours]
  have hne : ProcStatus.allowed ≠ .denied := by decide
  simp [word_eq_iff p hne, word_only_iff p hne, reduceCtorEq]

theorem cfgRulesStatus_eq (hload : load path = some doc) (p : Process) (cfg : Config) :
    (cfgRulesStatus processRoot load (some p.name) (some p.cmdLine) (some path) (some cfg)).1 =
      if verdict p doc = .allowed then .appviewdWithCfg else .notAppviewd := by
  have hstatus := processRulesRootNode_status processRoot p cfg doc
  simp only [cfgRulesStatus, rulesParseFile, hload, Option.map_some]
  rw [hstatus]
  cases verdict p doc <;> rfl

/-! ## Refused files -/

/-- What a field says to the test of the file. -/
def validWord (f : String × String) : Option Bool :=
  if f.1 ∈ [procnameNode, argNode] ∧ f.2 ≠ "" then some true else none

theorem validEntry_eq (s t : Bool) (e : Entry) (h : s = t) :
    e.foldl (processKeyValuePairRules validRules) s = (fields e).foldl (hear validWord) t := by
  have hread : ∀ k ∈ [procnameNode, argNode], ∀ s t v, s = t →
      processEntryIsNotEmpty (.scalar v) s = hear validWord t (k, v) := by
    rintro k hk s _ v rfl
    simp only [processEntryIsNotEmpty, length_pos_iff, hear, validWord, hk, true_and]
    split_ifs <;> rfl
  refine scalars_simulate (hread _ (by simp)) (hread _ (by simp)) ?_ h e
  intro t k v hp ha
  simp [hear, validWord, hp, ha]

/-- **A file is refused** exactly if no field that is read says anything. -/
theorem rules_file_refused : cfgRulesFileIsValid load path = false ↔
      ∀ doc, load path = some doc → ∀ f ∈ fieldsRead allowNode doc ++ fieldsRead denyNode doc,
        f.1 ∈ [procnameNode, argNode] → f.2 = "" := by
  cases hload : load path with
  | none => simp [cfgRulesFileIsValid, hload]
  | some doc =>
    have hfold : processRulesValidRootNode doc false =
        (fieldsRead allowNode doc ++ fieldsRead denyNode doc).foldl (hear validWord) false := by
      rw [foldl_append]
      exact processRoots_simulates validEntry_eq validEntry_eq rfl doc
    simp only [cfgRulesFileIsValid, hload, hfold, foldl_hear_iff]
    simp [validWord]

/-! ## Code and rules -/

theorem matchesEntry_of_read {key : String} {f : String × String}
    (hread : f ∈ fieldsRead key doc) (hf : p.Matches f) :
    ∃ e ∈ entriesOf key doc, p.MatchesEntry e := by
  obtain ⟨e, he, hfe⟩ := mem_flatMap.mp hread
  obtain ⟨items, hitems, he⟩ := mem_flatMap.mp he
  refine ⟨e, mem_flatMap.mpr ⟨items, hitems, ?_⟩, f, hfe, hf⟩
  rw [entries_eq]
  exact mem_append_left _ he

theorem Favoured.matchesEntry (h : Favoured p doc) :
    ∃ e ∈ entriesOf allowNode doc, p.MatchesEntry e := by
  obtain ⟨pre, f, post, hread, hf, -⟩ := h
  exact matchesEntry_of_read (by rw [hread]; simp) hf

/-- Where code and rules agree. A process that is to be viewed matches a field which
is read and after which no `arg` takes it off again. A process which the allow lists
leave on, and which matches a deny entry, matches one that is read. -/
def Upheld (p : Process) (doc : Option Node) : Prop :=
  (Viewed p doc → Favoured p doc) ∧
  (Favoured p doc → (∃ e ∈ entriesOf denyNode doc, p.MatchesEntry e) →
    ∃ f ∈ fieldsRead denyNode doc, p.Matches f)

theorem verdict_iff_viewed_iff (p : Process) (doc : Option Node) :
    (verdict p doc = .allowed ↔ Viewed p doc) ↔ Upheld p doc := by
  rw [verdict_allowed_iff]
  constructor
  · intro hagree
    refine ⟨fun hv => (hagree.mpr hv).1, fun hfav hdeny => ?_⟩
    by_contra hnone
    have hread : ∀ f ∈ fieldsRead denyNode doc, ¬ p.Matches f := by
      intro f hf hmatch
      exact hnone ⟨f, hf, hmatch⟩
    exact (hagree.mp ⟨hfav, hread⟩).2 hdeny
  · rintro ⟨hallow, hdeny⟩
    constructor
    · rintro ⟨hfav, hread⟩
      refine ⟨hfav.matchesEntry, fun hentry => ?_⟩
      obtain ⟨f, hf, hmatch⟩ := hdeny hfav hentry
      exact hread f hf hmatch
    · intro hv
      exact ⟨hallow hv, fun f hf hmatch => hv.2 (matchesEntry_of_read hf hmatch)⟩

def Rearranged (p : Process) (es es' : List Entry) : Prop :=
  (∀ e ∈ es, p.MatchesEntry e → ∃ e' ∈ es', (fields e).Perm (fields e')) ∧
  (∀ e' ∈ es', p.MatchesEntry e' → ∃ e ∈ es, (fields e').Perm (fields e))

theorem Rearranged.exists_iff {es es' : List Entry} (h : Rearranged p es es') :
    (∃ e ∈ es, p.MatchesEntry e) ↔ ∃ e ∈ es', p.MatchesEntry e := by
  have transfer : ∀ {e e' : Entry}, (fields e).Perm (fields e') → p.MatchesEntry e →
      p.MatchesEntry e' := by
    rintro e e' hperm ⟨f, hf, hmatch⟩
    exact ⟨f, hperm.mem_iff.mp hf, hmatch⟩
  constructor
  · rintro ⟨e, he, hmatch⟩
    obtain ⟨e', he', hperm⟩ := h.1 e he hmatch
    exact ⟨e', he', transfer hperm hmatch⟩
  · rintro ⟨e', he', hmatch⟩
    obtain ⟨e, he, hperm⟩ := h.2 e' he' hmatch
    exact ⟨e, he, transfer hperm hmatch⟩

/-- **Rules decision.** The code views a process with a configuration exactly if the
rules say so, for those documents and processes, and only those, that are `Upheld`.
Between such documents neither the order of entries and keys nor the entries that do
not match change the answer. -/
theorem rules_decide (processRoot : Config → Node → Config)
    (load : String → Option (Option Node)) (p : Process) (cfg : Config) (path : String)
    (doc : Option Node) (hload : load path = some doc) :
    let answer := fun file => (cfgRulesStatus processRoot load (some p.name)
      (some p.cmdLine) (some file) (some cfg)).1
    ((answer path = .appviewdWithCfg ↔ Viewed p doc) ↔ Upheld p doc) ∧
    ∀ path' doc', load path' = some doc' → Upheld p doc → Upheld p doc' →
      Rearranged p (entriesOf allowNode doc) (entriesOf allowNode doc') →
      Rearranged p (entriesOf denyNode doc) (entriesOf denyNode doc') →
      answer path = answer path' := by
  intro answer
  have hanswer : ∀ {file d}, load file = some d →
      answer file = if verdict p d = .allowed then .appviewdWithCfg else .notAppviewd :=
    fun h => cfgRulesStatus_eq processRoot h p cfg
  constructor
  · rw [hanswer hload, ← verdict_iff_viewed_iff]
    split_ifs with hv <;> simp [hv]
  · intro path' doc' hload' hup hup' hallow hdeny
    have hsame : verdict p doc = .allowed ↔ verdict p doc' = .allowed := by
      rw [(verdict_iff_viewed_iff p doc).mpr hup, (verdict_iff_viewed_iff p doc').mpr hup',
        Viewed, Viewed, hallow.exists_iff, hdeny.exists_iff]
    rw [hanswer hload, hanswer hload']
    simp [hsame]

def nginxRule : Node :=
  .mapping [(.scalar procnameNode, .scalar "nginx"), (.scalar argNode, .scalar "")]

def redisRule : Node :=
  .mapping [(.scalar procnameNode, .scalar ""), (.scalar argNode, .scalar "redis-server")]

def allowing (rules : List Node) : Option Node :=
  some (.mapping [(.scalar allowNode, .sequence rules)])

theorem rules_decide_match_last :
    (cfgRulesStatus (fun cfg _ => cfg) (fun _ => some (allowing [redisRule, nginxRule]))
      (some "nginx") (some "nginx -g") (some rulesUsrPath) (some ())).1
      = .appviewdWithCfg := by
  have h := (rules_decide (fun cfg _ => cfg)
    (fun _ => some (allowing [redisRule, nginxRule])) ⟨"nginx", "nginx -g"⟩ () rulesUsrPath
    _ rfl).1
  have hup : Upheld ⟨"nginx", "nginx -g"⟩ (allowing [redisRule, nginxRule]) := by
    constructor
    · intro _
      exact ⟨[(procnameNode, ""), (argNode, "redis-server")], (procnameNode, "nginx"),
        [(argNode, "")], rfl, by decide, by decide⟩
    · intro _ hdeny
      exact absurd hdeny (by decide)
  exact (h.mpr hup).mpr (by decide)

/-- With its two entries in the order of the example file, `nginx` matches the first of
them and nothing is denied; but the `arg` of the second takes it off. -/
theorem rules_decide_match_first : Viewed ⟨"nginx", "nginx -g"⟩ (allowing [nginxRule, redisRule]) ∧
    (cfgRulesStatus (fun cfg _ => cfg) (fun _ => some (allowing [nginxRule, redisRule]))
      (some "nginx") (some "nginx -g") (some rulesUsrPath) (some ())).1 = .notAppviewd ∧
    (cfgRulesStatus (fun cfg _ => cfg) (fun _ => some (allowing [redisRule, nginxRule]))
      (some "nginx") (some "nginx -g") (some rulesUsrPath) (some ())).1
      = .appviewdWithCfg := by
  decide

end

end AppView.Rules

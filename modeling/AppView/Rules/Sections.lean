import AppView.Rules.Decision

/-!
# Which configurations the rules apply

An entry of an allow list may hold a `config`. The rules comment has it applied for each entry
that matches the process.
-/

namespace AppView.Rules

open AppView.Framework List

/-! ## The flag -/

def configsOf (e : Entry) : List Node := valuesAt .mapping allowConfigNode e

def opened (p : Process) (carried : Bool) (e : Entry) : Bool :=
  (fields e).foldl (hear (p.word true false)) carried

def applied (p : Process) (carried : Bool) (e : Entry) : List Node :=
  if opened p carried e then (configsOf e).take 1 else []

def leftUp (p : Process) (carried : Bool) (e : Entry) : Bool :=
  opened p carried e && (configsOf e).isEmpty

def sections (p : Process) (es : List Entry) : List Node × Bool :=
  es.foldl (fun t e => (t.1 ++ applied p t.2 e, leftUp p t.2 e)) ([], false)

/-! ## The code -/

section
variable {Config : Type*} {processRoot : Config → Node → Config}

structure Applies (processRoot : Config → Node → Config) (p : Process) (cfg : Config)
    (fCfg : RulesCfg Config) (t : List Node × Bool) : Prop where
  procName : fCfg.procName = p.name
  procCmdLine : fCfg.procCmdLine = p.cmdLine
  cfg_eq : fCfg.cfg = t.1.foldl processRoot cfg
  rulesMatch : fCfg.rulesMatch = t.2

variable {p : Process} {cfg : Config} {done : List Node}

theorem allowRules_applies {fCfg : RulesCfg Config} {carried : Bool}
    (h : Applies processRoot p cfg fCfg (done, carried)) (e : Entry) :
    Applies processRoot p cfg (e.foldl (processKeyValuePairRules allowRules) fCfg)
      (done, opened p carried e) :=
  allowRules_simulates (R := fun s t => Applies processRoot p cfg s (done, t))
    (fun _ _ hs => ⟨hs.procName, hs.procCmdLine⟩)
    (fun _ _ hs => ⟨hs.procName, hs.procCmdLine, hs.cfg_eq, rfl⟩)
    (fun _ _ hs => ⟨hs.procName, hs.procCmdLine, hs.cfg_eq, rfl⟩) h e

theorem shape_of_mem_configsOf {e : Entry} {v : Node} (hv : v ∈ configsOf e) :
    v.shape = .mapping := by
  obtain ⟨⟨k, w⟩, -, hw⟩ := mem_filterMap.mp hv
  cases k with
  | scalar k =>
    simp only [valueAt] at hw
    split_ifs at hw with h
    cases hw
    exact h.1
  | sequence below => cases hw
  | mapping below => cases hw

theorem allowConfig_applies (vs : List Node) (hvs : ∀ v ∈ vs, v.shape = .mapping) (up : Bool)
    (fCfg : RulesCfg Config) (h : Applies processRoot p cfg fCfg (done, up)) :
    Applies processRoot p cfg (vs.foldl (fun s v => processAllowConfig processRoot v s) fCfg)
      (done ++ (if up then vs.take 1 else []), up && vs.isEmpty) := by
  have down : ∀ {done fCfg} (vs : List Node), Applies processRoot p cfg fCfg (done, false) →
      Applies processRoot p cfg
        (vs.foldl (fun s v => processAllowConfig processRoot v s) fCfg) (done, false) := by
    intro done fCfg vs h
    refine foldlRecOn (motive := fun s => Applies processRoot p cfg s (done, false)) vs _ h ?_
    intro s hs v _
    unfold processAllowConfig
    split
    · rw [if_neg (by simp [hs.rulesMatch])]
      exact hs
    · exact hs
  cases up with
  | false => simpa using down vs h
  | true =>
    cases vs with
    | nil => simpa using h
    | cons v vs =>
      have hv := hvs v mem_cons_self
      have hstep : Applies processRoot p cfg (processAllowConfig processRoot v fCfg)
          (done ++ [v], false) := by
        cases v with
        | scalar value => cases hv
        | sequence items => cases hv
        | mapping pairs =>
          rw [processAllowConfig, if_pos h.rulesMatch]
          refine ⟨h.procName, h.procCmdLine, ?_, rfl⟩
          simp [h.cfg_eq]
      simpa using down vs hstep

theorem processAllowEntry_applies (fCfg : RulesCfg Config) (t : List Node × Bool) (e : Entry)
    (h : Applies processRoot p cfg fCfg t) :
    Applies processRoot p cfg (processAllowEntry processRoot e fCfg)
      (t.1 ++ applied p t.2 e, leftUp p t.2 e) := by
  have hrules := allowRules_applies h e
  have hconfig := allowConfig_applies (configsOf e) (fun v => shape_of_mem_configsOf) _ _ hrules
  have hwalk := foldl_dispatch .mapping allowConfigNode (processAllowConfig processRoot) e
    (e.foldl (processKeyValuePairRules allowRules) fCfg)
  rw [processAllowEntry, allowConfig, hwalk]
  exact hconfig

theorem processDenyEntry_cfg (fCfg : RulesCfg Config) (e : Entry) :
    (e.foldl (processKeyValuePairRules denyRules) fCfg).cfg = fCfg.cfg := by
  refine foldlRecOn (motive := fun s : RulesCfg Config => s.cfg = fCfg.cfg) e _ rfl ?_
  intro s hs pair _
  refine dispatch_keeps (P := fun s : RulesCfg Config => s.cfg = fCfg.cfg) ?_ hs pair
  intro handler hmem node s hs
  rcases mem_pair.mp hmem with rfl | rfl
  · cases node <;> simp [processDenyProcNameScalar]
    · split_ifs <;> exact hs
    · exact hs
    · exact hs
  · cases node <;> simp [processDenyProcCmdLineScalar]
    · split_ifs <;> exact hs
    · exact hs
    · exact hs

def afterEntries (processRoot : Config → Node → Config) (p : Process) (cfg : Config)
    (es : List Entry) : RulesCfg Config :=
  es.foldl (fun s e => processAllowEntry processRoot e s)
    ⟨p.name, p.cmdLine, .notFound, cfg, false⟩

theorem afterEntries_applies (p : Process) (cfg : Config) (es : List Entry) :
    Applies processRoot p cfg (afterEntries processRoot p cfg es) (sections p es) :=
  foldl_rel ⟨rfl, rfl, rfl, rfl⟩ fun e _ s t => processAllowEntry_applies s t e

theorem cfgRulesStatus_cfg {load : String → Option (Option Node)} {path : String}
    {doc : Option Node} (hload : load path = some doc) (p : Process) (cfg : Config) :
    (cfgRulesStatus processRoot load (some p.name) (some p.cmdLine) (some path) (some cfg)).2 =
      some (afterEntries processRoot p cfg (entriesRead allowNode doc)).cfg := by
  set allowed := afterEntries processRoot p cfg (entriesRead allowNode doc)
  have hroot : processRulesRootNode processRoot doc ⟨p.name, p.cmdLine, .notFound, cfg, false⟩ =
      (entriesRead denyNode doc).foldl
        (fun s e => e.foldl (processKeyValuePairRules denyRules) s) allowed :=
    processRoots_entries (R := Eq) (fun _ _ _ h => by rw [h]) (fun _ _ _ h => by rw [h]) rfl doc
  have hdeny : (processRulesRootNode processRoot doc
      ⟨p.name, p.cmdLine, .notFound, cfg, false⟩).cfg = allowed.cfg := by
    rw [hroot]
    refine foldlRecOn (motive := fun s : RulesCfg Config => s.cfg = _) _ _ rfl ?_
    intro s hs e _
    rw [processDenyEntry_cfg, hs]
  simp only [cfgRulesStatus, rulesParseFile, hload, Option.map_some]
  rw [hdeny]

end

/-! ## When the flag is up -/

def Carried (p : Process) (es : List Entry) : Prop :=
  ∃ pre e post, es = pre ++ e :: post ∧ p.Favours (fields e) ∧ configsOf e = [] ∧
    ∀ e' ∈ post, configsOf e' = [] ∧ ∀ f ∈ fields e', ¬ p.Rejects f

theorem opened_iff (p : Process) (carried : Bool) (e : Entry) : opened p carried e = true ↔
      p.Favours (fields e) ∨ carried = true ∧ ∀ f ∈ fields e, ¬ p.Rejects f := by
  rw [opened, foldl_hear_iff]
  simp only [word_eq_iff p Bool.false_ne_true.symm, word_only_iff p Bool.false_ne_true.symm,
    Process.Favours]

theorem sections_concat (p : Process) (es : List Entry) (e : Entry) : sections p (es ++ [e]) =
      ((sections p es).1 ++ applied p (sections p es).2 e, leftUp p (sections p es).2 e) := by
  simp [sections]

theorem sections_up_iff (p : Process) (es : List Entry) :
    (sections p es).2 = true ↔ Carried p es := by
  induction es using reverseRecOn with
  | nil => simp [sections, Carried]
  | append_singleton es e ih =>
    rw [sections_concat, leftUp, Bool.and_eq_true, opened_iff, ih, List.isEmpty_iff]
    constructor
    · rintro ⟨hfav | ⟨⟨pre, e₀, post, rfl, hfav, hnone, hpost⟩, hrej⟩, hcfg⟩
      · exact ⟨es, e, [], rfl, hfav, hcfg, by simp⟩
      · refine ⟨pre, e₀, post ++ [e], by simp, hfav, hnone, ?_⟩
        intro e' he'
        rcases mem_append.mp he' with he' | he'
        · exact hpost e' he'
        · obtain rfl := mem_singleton.mp he'
          exact ⟨hcfg, hrej⟩
    · rintro ⟨pre, e₀, post, heq, hfav, hnone, hpost⟩
      -- the favouring entry is the last one, or stands before it
      rcases eq_nil_or_concat' post with rfl | ⟨post, e', rfl⟩
      · obtain ⟨rfl, he⟩ := append_inj' heq rfl
        obtain rfl := singleton_inj.mp he
        exact ⟨.inl hfav, hnone⟩
      · rw [← cons_append, ← append_assoc] at heq
        obtain ⟨rfl, he⟩ := append_inj' heq rfl
        obtain rfl := singleton_inj.mp he
        obtain ⟨hcfg, hrej⟩ := hpost e (by simp)
        exact ⟨.inr ⟨⟨pre, e₀, post, rfl, hfav, hnone, fun x hx => hpost x (by simp [hx])⟩,
          hrej⟩, hcfg⟩

/-! ## Code and rules -/

def due (p : Process) (e : Entry) : List Node :=
  if p.MatchesEntry e then configsOf e else []

def entriesUnread (key : String) (doc : Option Node) : List Entry :=
  (listsOf key doc).flatMap unread

/-- Where an entry has a configuration: if it matches, it has no second one and its last
field that says anything is for the process; if it does not match, it takes the process
off or the flag is not up before it. -/
def Served (p : Process) (pre : List Entry) (e : Entry) : Prop :=
  configsOf e ≠ [] →
    (p.MatchesEntry e → (configsOf e).length = 1 ∧ p.Favours (fields e)) ∧
    (¬ p.MatchesEntry e → Carried p pre → ∃ f ∈ fields e, p.Rejects f)

variable {p : Process} {e : Entry}

theorem Process.Favours.matchesEntry (h : p.Favours (fields e)) : p.MatchesEntry e := by
  obtain ⟨pre, f, post, heq, hf, -⟩ := h
  exact ⟨f, by rw [heq]; simp, hf⟩

theorem favours_of_not_rejects (h : p.MatchesEntry e) (hrej : ∀ f ∈ fields e, ¬ p.Rejects f) :
    p.Favours (fields e) := by
  obtain ⟨f, hf, hmatch⟩ := h
  obtain ⟨pre, post, heq⟩ := append_of_mem hf
  refine ⟨pre, f, post, heq, hmatch, fun g hg => hrej g ?_⟩
  rw [heq]
  simp [hg]

variable {carried : Bool} {es : List Entry}

theorem opened_iff_favours (h : p.MatchesEntry e) :
    opened p carried e = true ↔ p.Favours (fields e) := by
  rw [opened_iff]
  constructor
  · rintro (hfav | ⟨-, hrej⟩)
    · exact hfav
    · exact favours_of_not_rejects h hrej
  · exact .inl

theorem opened_iff_carried (h : ¬ p.MatchesEntry e) :
    opened p carried e = true ↔ carried = true ∧ ∀ f ∈ fields e, ¬ p.Rejects f := by
  rw [opened_iff]
  constructor
  · rintro (hfav | hc)
    · exact absurd hfav.matchesEntry h
    · exact hc
  · exact .inr

theorem applied_eq_due_iff (p : Process) (pre : List Entry) (e : Entry) :
    applied p (sections p pre).2 e = due p e ↔ Served p pre e := by
  by_cases hcfg : configsOf e = []
  · simp [applied, due, Served, hcfg]
  by_cases hm : p.MatchesEntry e
  · have htake : (configsOf e).take 1 = configsOf e ↔ (configsOf e).length = 1 := by
      have hpos : 0 < (configsOf e).length := List.length_pos_iff.mpr hcfg
      rw [take_eq_self_iff]
      omega
    have hserved : Served p pre e ↔ (configsOf e).length = 1 ∧ p.Favours (fields e) := by
      simp [Served, hcfg, hm]
    rw [applied, due, if_pos hm, hserved]
    by_cases hfav : p.Favours (fields e)
    · rw [if_pos ((opened_iff_favours hm).mpr hfav), htake]
      exact (and_iff_left hfav).symm
    · rw [if_neg fun h => hfav ((opened_iff_favours hm).mp h)]
      exact ⟨fun h => absurd h.symm hcfg, fun h => absurd h.2 hfav⟩
  · have hserved : Served p pre e ↔ ¬ opened p (sections p pre).2 e = true := by
      rw [opened_iff_carried hm, sections_up_iff]
      simp [Served, hcfg, hm]
    rw [applied, due, if_neg hm, hserved]
    by_cases ho : opened p (sections p pre).2 e = true
    · simp [ho, hcfg]
    · simp [ho]

theorem sections_length_le (h : ∀ pre e post, es = pre ++ e :: post →
      (applied p (sections p pre).2 e).length ≤ (due p e).length) :
    (sections p es).1.length ≤ (es.flatMap (due p)).length ∧
    ((sections p es).1.length = (es.flatMap (due p)).length → ∀ pre e post, es = pre ++ e :: post →
        (applied p (sections p pre).2 e).length = (due p e).length) := by
  induction es using reverseRecOn with
  | nil => simp [sections]
  | append_singleton es e ih =>
    have hlast := h es e [] rfl
    obtain ⟨hle, heq⟩ := ih fun pre x post hx => h pre x (post ++ [e]) (by simp [hx])
    rw [sections_concat]
    simp only [flatMap_append, flatMap_singleton, length_append]
    refine ⟨by omega, fun hall pre x post hx => ?_⟩
    rcases eq_nil_or_concat' post with rfl | ⟨post, y, rfl⟩
    · obtain ⟨rfl, hxe⟩ := append_inj' hx rfl
      obtain rfl := singleton_inj.mp hxe
      omega
    · rw [← cons_append, ← append_assoc] at hx
      obtain ⟨rfl, -⟩ := append_inj' hx rfl
      exact heq (by omega) pre x post rfl

theorem sections_eq_due
    (h : ∀ pre e post, es = pre ++ e :: post → applied p (sections p pre).2 e = due p e) :
    (sections p es).1 = es.flatMap (due p) := by
  induction es using reverseRecOn with
  | nil => rfl
  | append_singleton es e ih =>
    rw [sections_concat, h es e [] rfl,
      ih fun pre x post hx => h pre x (post ++ [e]) (by simp [hx])]
    simp

/-! ## What is read and what is not -/

theorem due_split_length (p : Process) (key : String) (doc : Option Node) :
    ((entriesOf key doc).flatMap (due p)).length = ((entriesRead key doc).flatMap (due p)).length +
        ((entriesUnread key doc).flatMap (due p)).length := by
  simp only [entriesOf, entriesRead, entriesUnread]
  induction listsOf key doc with
  | nil => rfl
  | cons items lists ih =>
    simp only [flatMap_cons, entries_eq items, flatMap_append, length_append] at ih ⊢
    omega

theorem due_read (p : Process) {key : String} {doc : Option Node}
    (h : ∀ e ∈ entriesUnread key doc, due p e = []) :
    (entriesOf key doc).flatMap (due p) = (entriesRead key doc).flatMap (due p) := by
  simp only [entriesOf, entriesRead, entriesUnread] at h ⊢
  generalize listsOf key doc = lists at h ⊢
  induction lists with
  | nil => rfl
  | cons items lists ih =>
    rw [flatMap_cons] at h
    have hnone : (unread items).flatMap (due p) = [] :=
      flatMap_eq_nil_iff.mpr fun e he => h e (mem_append_left _ he)
    simp [entries_eq items, hnone, ih fun e he => h e (mem_append_right _ he)]

def Applicable (p : Process) (doc : Option Node) : Prop :=
  (∀ pre e post, entriesRead allowNode doc = pre ++ e :: post → Served p pre e) ∧
  ∀ e ∈ entriesUnread allowNode doc, p.MatchesEntry e → configsOf e = []

/-- The sections that are applied are those due for the matching entries, and none of an entry
that does not match. -/
def Delivered (p : Process) (doc : Option Node) : Prop :=
  (sections p (entriesRead allowNode doc)).1 = (entriesOf allowNode doc).flatMap (due p) ∧
  ∀ pre e post, entriesRead allowNode doc = pre ++ e :: post → ¬ p.MatchesEntry e →
    applied p (sections p pre).2 e = []

theorem delivered_of_applicable {doc : Option Node} (h : Applicable p doc) :
    Delivered p doc := by
  obtain ⟨hserved, hunread⟩ := h
  have happlied : ∀ pre e post, entriesRead allowNode doc = pre ++ e :: post →
      applied p (sections p pre).2 e = due p e :=
    fun pre e post heq => (applied_eq_due_iff p pre e).mpr (hserved pre e post heq)
  constructor
  · rw [sections_eq_due happlied, due_read]
    intro e he
    by_cases hm : p.MatchesEntry e
    · rw [due, if_pos hm, hunread e he hm]
    · rw [due, if_neg hm]
  · intro pre e post heq hm
    rw [happlied pre e post heq, due, if_neg hm]

theorem applicable_of_delivered {doc : Option Node} (h : Delivered p doc) :
    Applicable p doc := by
  obtain ⟨hall, hnone⟩ := h
  have hsub : ∀ pre e post, entriesRead allowNode doc = pre ++ e :: post →
      (applied p (sections p pre).2 e).Sublist (due p e) := by
    intro pre e post heq
    by_cases hm : p.MatchesEntry e
    · rw [applied, due, if_pos hm]
      split_ifs
      · exact take_sublist _ _
      · exact nil_sublist _
    · rw [hnone pre e post heq hm]
      exact nil_sublist _
  have hlen := congrArg length hall
  obtain ⟨hread, hpoint⟩ :=
    sections_length_le fun pre e post heq => (hsub pre e post heq).length_le
  rw [due_split_length] at hlen
  refine ⟨fun pre e post heq => ?_, fun e he hm => ?_⟩
  · rw [← applied_eq_due_iff]
    exact (hsub pre e post heq).eq_of_length (hpoint (by omega) pre e post heq)
  · have hunread : (entriesUnread allowNode doc).flatMap (due p) = [] :=
      eq_nil_of_length_eq_zero (by omega)
    have hdue := flatMap_eq_nil_iff.mp hunread e he
    rwa [due, if_pos hm] at hdue

/-- **Rules configuration.** The configuration that results is the initial one with the
`sections` applied in order. If the document is `Applicable` to the process, it is the one with
those due for the matching allow entries, and an entry that does not match changes nothing;
and the sections that are applied are the due ones exactly then. -/
theorem rules_configure {Config : Type} (processRoot : Config → Node → Config)
    (load : String → Option (Option Node)) (p : Process) (path : String) (doc : Option Node)
    (hload : load path = some doc) (cfg : Config) :
    (cfgRulesStatus processRoot load (some p.name) (some p.cmdLine) (some path) (some cfg)).2 =
      some ((sections p (entriesRead allowNode doc)).1.foldl processRoot cfg) ∧
    (Applicable p doc →
      (cfgRulesStatus processRoot load (some p.name) (some p.cmdLine) (some path) (some cfg)).2 =
        some (((entriesOf allowNode doc).flatMap (due p)).foldl processRoot cfg) ∧
      ∀ pre e post, entriesRead allowNode doc = pre ++ e :: post → ¬ p.MatchesEntry e →
        (afterEntries processRoot p cfg (pre ++ [e])).cfg =
          (afterEntries processRoot p cfg pre).cfg) ∧
    (Delivered p doc ↔ Applicable p doc) := by
  have hresult : (cfgRulesStatus processRoot load (some p.name) (some p.cmdLine) (some path)
      (some cfg)).2 = some ((sections p (entriesRead allowNode doc)).1.foldl processRoot cfg) := by
    rw [cfgRulesStatus_cfg hload, (afterEntries_applies ..).cfg_eq]
  refine ⟨hresult, fun happ => ?_, applicable_of_delivered, delivered_of_applicable⟩
  obtain ⟨hall, hnone⟩ := delivered_of_applicable happ
  refine ⟨by rw [hresult, hall], fun pre e post heq hm => ?_⟩
  rw [(afterEntries_applies ..).cfg_eq, (afterEntries_applies ..).cfg_eq, sections_concat,
    hnone pre e post heq hm, append_nil]

/-! ## The log level -/

inductive LogLevel where
  | debug | info | warn | error | none | trace
  deriving DecidableEq

def logLevelMap : List (String × LogLevel) :=
  [("debug", .debug), ("info", .info), ("warning", .warn), ("error", .error), ("none", .none),
    ("trace", .trace)]

def processLevel (node : Node) (level : LogLevel) : LogLevel :=
  match node with
  | .scalar value => (logLevelMap.lookup value).getD level
  | _ => level

/-- What `processRoot` does with the log level; the other settings are left out. -/
def processRootLevel (level : LogLevel) (node : Node) : LogLevel :=
  let processLogging := walk [⟨.scalar, "level", processLevel⟩]
  let processLibappview := walk [⟨.mapping, "log", processLogging⟩]
  walk [⟨.mapping, "libappview", processLibappview⟩] node level

def bareRule (name : String) : Node := .mapping [(.scalar procnameNode, .scalar name)]

/-- A rule with `config: {libappview: {log: {level: debug}}}`. -/
def debugRule (name : String) : Node :=
  let log := Node.mapping [(.scalar "level", .scalar "debug")]
  let config := Node.mapping [(.scalar "libappview", .mapping [(.scalar "log", log)])]
  .mapping [(.scalar procnameNode, .scalar name), (.scalar allowConfigNode, config)]

theorem rules_configure_own :
    (cfgRulesStatus processRootLevel (fun _ => some (allowing [debugRule "nginx"]))
      (some "nginx") (some "nginx -g") (some rulesUsrPath) (some .warn)).2 = some .debug := by
  have happ : Applicable ⟨"nginx", "nginx -g"⟩ (allowing [debugRule "nginx"]) := by
    constructor
    · intro pre e post heq _
      obtain ⟨rfl, he⟩ : pre = [] ∧ [_] = e :: post := by
        cases pre with
        | nil => exact ⟨rfl, heq⟩
        | cons x pre => simp [entriesRead, listsOf, allowing, listsAt, leading, debugRule] at heq
      obtain ⟨rfl, rfl⟩ := cons.inj he
      refine ⟨fun _ => ⟨rfl, [], (procnameNode, "nginx"), [], rfl, by decide, by simp⟩, ?_⟩
      exact fun h => absurd ⟨(procnameNode, "nginx"), by decide, by decide⟩ h
    · intro e he
      cases he
  have h := rules_configure processRootLevel (fun _ => some (allowing [debugRule "nginx"]))
    ⟨"nginx", "nginx -g"⟩ rulesUsrPath _ rfl .warn
  exact (h.2.1 happ).1.trans (by decide)

/-- `nginx` matches an entry without a configuration; the configuration of `redis`
behind it is applied, and the log level of `nginx` is `debug`. -/
theorem rules_configure_leak :
    let doc := allowing [bareRule "nginx", debugRule "redis"]
    ((entriesOf allowNode doc).flatMap (due ⟨"nginx", "nginx -g"⟩)).foldl processRootLevel .warn =
      .warn ∧
    (cfgRulesStatus processRootLevel (fun _ => some doc) (some "nginx") (some "nginx -g")
      (some rulesUsrPath) (some .warn)).2 = some .debug := by
  decide

end AppView.Rules

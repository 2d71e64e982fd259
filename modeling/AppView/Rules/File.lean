import AppView.Framework.Document

/-!
# The rules file

`cfgRulesStatus` reads the rules file once and decides whether a process is viewed: the allow
lists first, then the deny lists, each entry in order, each key of an entry through a table of
handlers.
-/

namespace AppView.Rules

open AppView.Framework

/-! ## Names and results -/

def allowNode : String := "allow"
def denyNode : String := "deny"
def procnameNode : String := "procname"
def argNode : String := "arg"
def allowConfigNode : String := "config"
def matchAllVal : String := "_MatchAll_"
def rulesUsrPath : String := "/usr/lib/appview/appview_rules"

inductive ProcStatus where
  | notFound | allowed | denied
  deriving DecidableEq, Repr

inductive RulesStatus where
  /-- error with rules operation -/
  | error
  /-- process will be viewed -/
  | appviewd
  /-- process will be viewed with cfg from the rules file -/
  | appviewdWithCfg
  /-- process will not be viewed -/
  | notAppviewd
  deriving DecidableEq, Repr

structure RulesCfg (Config : Type*) where
  procName : String
  procCmdLine : String
  status : ProcStatus
  cfg : Config
  /-- The next configuration of the list is for this process. -/
  rulesMatch : Bool

/-! ## `strstr` -/

def strstrFrom (needle : List Char) : List Char → Option (List Char)
  | [] => if needle = [] then some [] else none
  | c :: cs => if needle <+: c :: cs then some (c :: cs) else strstrFrom needle cs

def strstr (haystack needle : String) : Option (List Char) :=
  strstrFrom needle.toList haystack.toList

theorem strstrFrom_isSome_iff (needle text : List Char) :
    (strstrFrom needle text).isSome ↔ needle <:+: text := by
  induction text with
  | nil => by_cases h : needle = [] <;> simp [strstrFrom, h]
  | cons c cs ih =>
    rw [List.infix_cons_iff, ← ih, strstrFrom]
    split_ifs with h
    · simp [h]
    · simp [h]

/-! ## Allow lists -/

section
variable {Config σ : Type*}

abbrev processKeyValuePairRules (fEntry : List (Handler σ)) (extData : σ)
    (pair : Node × Node) : σ :=
  dispatch fEntry extData pair

/-- A name that matches allows the process. -/
def processAllowProcNameScalar (node : Node) (fCfg : RulesCfg Config) : RulesCfg Config :=
  match node with
  | .scalar procname =>
    if fCfg.procName = procname ∨ matchAllVal = procname then
      { fCfg with status := .allowed, rulesMatch := true }
    else fCfg
  | _ => fCfg

/-- A command line decides either way, against what was decided before. -/
def processAllowProcCmdLineScalar (node : Node) (fCfg : RulesCfg Config) : RulesCfg Config :=
  match node with
  | .scalar cmdline =>
    if 0 < cmdline.length then  -- an arg is specified in the rules file
      if (strstr fCfg.procCmdLine cmdline).isSome ∨ matchAllVal = cmdline then
        { fCfg with status := .allowed, rulesMatch := true }
      else { fCfg with status := .denied, rulesMatch := false }
    else fCfg
  | _ => fCfg

/-- The configuration of an entry is read only directly after a match. -/
def processAllowConfig (processRoot : Config → Node → Config) (node : Node)
    (fCfg : RulesCfg Config) : RulesCfg Config :=
  match node with
  | .mapping _ =>
    if fCfg.rulesMatch then
      { fCfg with cfg := processRoot fCfg.cfg node, rulesMatch := false }
    else fCfg
  | _ => fCfg

def processSeq (body : Entry → σ → σ) (node : Node) (extData : σ) : σ :=
  match node with
  | .sequence items => eachEntry body items extData
  | _ => extData

def allowRules : List (Handler (RulesCfg Config)) :=
  [⟨.scalar, procnameNode, processAllowProcNameScalar⟩,
   ⟨.scalar, argNode, processAllowProcCmdLineScalar⟩]

def allowConfig (processRoot : Config → Node → Config) : List (Handler (RulesCfg Config)) :=
  [⟨.mapping, allowConfigNode, processAllowConfig processRoot⟩]

/-- The rules of an entry are read before its configuration, in whatever order they stand. -/
def processAllowEntry (processRoot : Config → Node → Config) (pairs : Entry)
    (fCfg : RulesCfg Config) : RulesCfg Config :=
  let fCfg := pairs.foldl (processKeyValuePairRules allowRules) fCfg
  pairs.foldl (processKeyValuePairRules (allowConfig processRoot)) fCfg

def processAllowSeq (processRoot : Config → Node → Config) :
    Node → RulesCfg Config → RulesCfg Config :=
  processSeq (processAllowEntry processRoot)

/-! ## Deny lists -/

/-- A name that matches denies the process. -/
def processDenyProcNameScalar (node : Node) (fCfg : RulesCfg Config) : RulesCfg Config :=
  match node with
  | .scalar procname =>
    if fCfg.procName = procname ∨ matchAllVal = procname then
      { fCfg with status := .denied }
    else fCfg
  | _ => fCfg

/-- A command line that matches denies the process. -/
def processDenyProcCmdLineScalar (node : Node) (fCfg : RulesCfg Config) : RulesCfg Config :=
  match node with
  | .scalar cmdline =>
    if 0 < cmdline.length ∧
        ((strstr fCfg.procCmdLine cmdline).isSome ∨ matchAllVal = cmdline) then
      { fCfg with status := .denied }
    else fCfg
  | _ => fCfg

def denyRules : List (Handler (RulesCfg Config)) :=
  [⟨.scalar, procnameNode, processDenyProcNameScalar⟩,
   ⟨.scalar, argNode, processDenyProcCmdLineScalar⟩]

def processDenySeq : Node → RulesCfg Config → RulesCfg Config :=
  processSeq fun pairs fCfg => pairs.foldl (processKeyValuePairRules denyRules) fCfg

/-! ## The whole file -/

def processRoots (allow deny : Node → σ → σ) (doc : Option Node) (extData : σ) : σ :=
  match doc with
  | some (.mapping pairs) =>
    let extData :=
      pairs.foldl (processKeyValuePairRules [⟨.sequence, allowNode, allow⟩]) extData
    pairs.foldl (processKeyValuePairRules [⟨.sequence, denyNode, deny⟩]) extData
  | _ => extData

def processRulesRootNode (processRoot : Config → Node → Config) :
    Option Node → RulesCfg Config → RulesCfg Config :=
  processRoots (processAllowSeq processRoot) processDenySeq

/-- No result where the file cannot be read. -/
def rulesParseFile (processRoot : Config → Node → Config)
    (load : String → Option (Option Node)) (rulesPath : String) (fCfg : RulesCfg Config) :
    Option (RulesCfg Config) :=
  (load rulesPath).map fun doc => processRulesRootNode processRoot doc fCfg

def cfgRulesStatus (processRoot : Config → Node → Config)
    (load : String → Option (Option Node)) (procName procCmdLine rulesPath : Option String)
    (cfg : Option Config) : RulesStatus × Option Config :=
  match procName, procCmdLine, cfg with
  | some name, some cmdLine, some cfg₀ =>
    match rulesPath with
    -- if the rules file is missing every process is viewed
    | none => (.appviewd, cfg)
    | some path =>
      match rulesParseFile processRoot load path ⟨name, cmdLine, .notFound, cfg₀, false⟩ with
      | none => (.error, cfg)
      | some fCfg =>
        (match fCfg.status with
          | .notFound | .denied => .notAppviewd
          | .allowed => .appviewdWithCfg,
         some fCfg.cfg)
  | _, _, _ => (.error, cfg)

/-! ## Choosing the file -/

def processEntryIsNotEmpty (node : Node) (status : Bool) : Bool :=
  match node with
  | .scalar value => if 0 < value.length then true else status
  | _ => status

def validRules : List (Handler Bool) :=
  [⟨.scalar, procnameNode, processEntryIsNotEmpty⟩,
   ⟨.scalar, argNode, processEntryIsNotEmpty⟩]

def processValidAllowDenySeq : Node → Bool → Bool :=
  processSeq fun pairs status => pairs.foldl (processKeyValuePairRules validRules) status

def processRulesValidRootNode : Option Node → Bool → Bool :=
  processRoots processValidAllowDenySeq processValidAllowDenySeq

def cfgRulesFileIsValid (load : String → Option (Option Node)) (rulesPath : String) : Bool :=
  match load rulesPath with
  | none => false
  | some doc => processRulesValidRootNode doc false

end

end AppView.Rules

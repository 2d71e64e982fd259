import AppView.Framework.Runs

/-!
# The list of protocol detectors (`state.c`, `cfgutils.c`)

`addProtocol` and `delProtocol` serve requests, `processProtocolEntry` enters what a
configuration has. `delProtocol` compares over the length of the name in the list, so that it
deletes every definition whose name is a prefix of the requested one, and
`processProtocolEntry` destroys the definition it replaces after the list has done so.
**`protocol_list`**: the list is right after every request, and no definition is destroyed
twice, exactly if neither happens.
-/

namespace AppView.Protocols

open Framework List Function Option

/-! ## The list -/

structure ProtocolDef where
  regex : String
  binary : Bool
  detect : Bool
  payload : Bool
  len : UInt32
  deriving DecidableEq

/-- An entry of the configuration as it is read: the name and the expression may be missing. -/
structure ProtocolContext where
  protname : Option String
  regex : Option String
  binary : Bool
  detect : Bool
  payload : Bool
  len : UInt32

structure Libraries where
  pcre2Compile : String → Bool

structure Definition where
  id : ℕ
  protname : String
  prot : ProtocolDef
  deriving DecidableEq

structure State where
  protlist : ℕ → Option Definition
  sequence : UInt32
  destroyed : List ℕ
  allocated : ℕ

def State.initial : State := ⟨fun _ => none, 0, [], 0⟩

def lstFind (s : State) (key : ℕ) : Option Definition := s.protlist key

/-- No result where the key is taken or there is no memory. -/
def lstInsert (s : State) (key : ℕ) (d : Definition) (alloc : Bool) : Option State :=
  if alloc = true ∧ s.protlist key = none then
    some { s with protlist := update s.protlist key (some d) }
  else none

/-- The definition is noted as destroyed. -/
def destroyProtEntry (s : State) (id : ℕ) : State := { s with destroyed := s.destroyed ++ [id] }

/-- The list destroys the definition it held. -/
def lstDelete (s : State) (key : ℕ) : State :=
  match s.protlist key with
  | some d =>
    destroyProtEntry { s with protlist := update s.protlist key none } d.id
  | none => s

/-! ## Requests -/

def keys (s : State) : List ℕ := List.range (s.sequence.toNat + 1)

/-- The comparison is over the length of the name in the list. -/
def delStep (protname : String) (s : State) (ptype : ℕ) : State :=
  match lstFind s ptype with
  | some d =>
    if d.protname.toList.isPrefixOf protname.toList then lstDelete s ptype else s
  | none => s

/-- Every key up to the last one is looked at; the request itself is destroyed at the end. -/
def delProtocol (s : State) (id : ℕ) (protname : String) : State :=
  destroyProtEntry ((keys s).foldl (delStep protname) s) id

def append (s : State) (d : Definition) (alloc : Bool) : State :=
  let s' := { s with sequence := s.sequence + 1 }
  match lstInsert s' s'.sequence.toNat d alloc with
  | some s'' => s''
  | none => destroyProtEntry s d.id

def addProtocol (lib : Libraries) (s : State) (d : Definition) (alloc : Bool) : State :=
  if lib.pcre2Compile d.prot.regex then append s d alloc else destroyProtEntry s d.id

def isNamed (s : State) (protname : String) (key : ℕ) : Bool :=
  (lstFind s key).any fun found => found.protname = protname

/-- The definition that was found is destroyed here as well. -/
def replace (s : State) (key : ℕ) (found d : Definition) (alloc : Bool) : State :=
  let s' := lstDelete s key
  destroyProtEntry ((lstInsert s' key d alloc).getD s') found.id

/-- An entry of the configuration: in place of the first one of its name, or behind the others. -/
def processProtocolEntry (lib : Libraries) (s : State) (id : ℕ) (p : ProtocolContext)
    (alloc : Bool) : State :=
  match p.protname, p.regex with
  | some protname, some regex =>
    let d : Definition := ⟨id, protname, ⟨regex, p.binary, p.detect, p.payload, p.len⟩⟩
    if lib.pcre2Compile regex then
      match (keys s).find? (isNamed s protname) with
      | some key =>
        match lstFind s key with
        | some found => replace s key found d alloc
        | none => s
      | none => append s d alloc
    else destroyProtEntry s id
  | _, _ => destroyProtEntry s id

inductive Request where
  | addProtocol (protname : String) (prot : ProtocolDef) (alloc : Bool)
  | delProtocol (protname : String)
  | entry (p : ProtocolContext) (alloc : Bool)

def step (lib : Libraries) (s : State) (r : Request) : State :=
  let id := s.allocated
  let s := { s with allocated := id + 1 }
  match r with
  | .addProtocol protname prot alloc => addProtocol lib s ⟨id, protname, prot⟩ alloc
  | .delProtocol protname => delProtocol s id protname
  | .entry p alloc => processProtocolEntry lib s id p alloc

/-! ## What the list is for -/

structure Registry where
  present : List Definition
  added : ℕ
  allocated : ℕ

def Registry.initial : Registry := ⟨[], 0, 0⟩

def definitionOf (lib : Libraries) (id : ℕ) (p : ProtocolContext) : Option Definition :=
  match p.protname, p.regex with
  | some protname, some regex =>
    if lib.pcre2Compile regex then
      some ⟨id, protname, ⟨regex, p.binary, p.detect, p.payload, p.len⟩⟩
    else none
  | _, _ => none

def Registry.add (t : Registry) (d : Definition) (alloc : Bool) : Registry :=
  if alloc then { t with present := t.present ++ [d], added := t.added + 1 } else t

def Registry.del (t : Registry) (protname : String) : Registry :=
  { t with present := t.present.filter fun d => d.protname ≠ protname }

def Registry.step (lib : Libraries) (t : Registry) (r : Request) : Registry :=
  let id := t.allocated
  let t := { t with allocated := id + 1 }
  match r with
  | .addProtocol protname prot alloc =>
    if lib.pcre2Compile prot.regex then t.add ⟨id, protname, prot⟩ alloc else t
  | .delProtocol protname => t.del protname
  | .entry p alloc =>
    match definitionOf lib id p with
    | some d => (t.del d.protname).add d alloc
    | none => t

def Agrees (s : State) (t : Registry) : Prop :=
  (∀ d, (∃ key, s.protlist key = some d) ↔ d ∈ t.present) ∧ s.destroyed.Nodup

def Right (lib : Libraries) (t : Registry) (r : Request) : Prop :=
  match r with
  | .addProtocol .. => True
  | .delProtocol protname =>
    ∀ d ∈ t.present, d.protname.toList <+: protname.toList → d.protname = protname
  | .entry p _ =>
    ∀ new ∈ definitionOf lib t.allocated p, ∀ d ∈ t.present, d.protname ≠ new.protname

def Request.isAddition : Request → Bool
  | .addProtocol .. | .entry _ _ => true
  | .delProtocol _ => false

/-! ## The definitions in the order of their keys -/

def entries (s : State) : List Definition := (keys s).filterMap s.protlist

def Bounded (s : State) : Prop := ∀ key d, s.protlist key = some d → key ≤ s.sequence.toNat

theorem mem_keys {s : State} {key : ℕ} : key ∈ keys s ↔ key ≤ s.sequence.toNat := by
  rw [keys, mem_range]
  omega

theorem mem_entries {s : State} (h : Bounded s) (d : Definition) :
    d ∈ entries s ↔ ∃ key, s.protlist key = some d := by
  rw [entries, mem_filterMap]
  constructor
  · rintro ⟨key, -, hkey⟩
    exact ⟨key, hkey⟩
  · rintro ⟨key, hkey⟩
    exact ⟨key, mem_keys.2 (h key d hkey), hkey⟩

/-! ### A definition that comes -/

section Append

variable {s : State} {d : Definition}

theorem toNat_succ (h : s.sequence.toNat < 2 ^ 32 - 1) :
    (s.sequence + 1).toNat = s.sequence.toNat + 1 := by
  rw [UInt32.toNat_add]
  exact Nat.mod_eq_of_lt (by simpa using by omega)

theorem append_eq (hbound : Bounded s) (h : s.sequence.toNat < 2 ^ 32 - 1) (alloc : Bool) :
    append s d alloc =
      if alloc then
        { s with
          sequence := s.sequence + 1
          protlist := update s.protlist (s.sequence.toNat + 1) (some d) }
      else destroyProtEntry s d.id := by
  have hfree : s.protlist (s.sequence.toNat + 1) = none := by
    rw [← not_isSome_iff_eq_none]
    intro hsome
    obtain ⟨x, hx⟩ := isSome_iff_exists.1 hsome
    have := hbound _ x hx
    omega
  cases alloc with
  | true => simp [append, lstInsert, toNat_succ h, hfree]
  | false => simp [append, lstInsert]

theorem entries_append (hbound : Bounded s) (h : s.sequence.toNat < 2 ^ 32 - 1) :
    entries (append s d true) = entries s ++ [d] := by
  have hsame : ∀ key ∈ keys s,
      update s.protlist (s.sequence.toNat + 1) (some d) key = s.protlist key := by
    intro key hkey
    have := mem_keys.1 hkey
    exact update_of_ne (by omega) _ _
  rw [append_eq hbound h, if_pos rfl, entries, entries]
  simp only [keys, toNat_succ h] at hsame ⊢
  rw [range_succ, filterMap_append, filterMap_congr hsame]
  simp

theorem bounded_append (hbound : Bounded s) (h : s.sequence.toNat < 2 ^ 32 - 1) (alloc : Bool) :
    Bounded (append s d alloc) := by
  rw [append_eq hbound h]
  cases alloc with
  | false => exact hbound
  | true =>
    intro key x hx
    simp only [if_true, toNat_succ h] at hx ⊢
    by_cases hkey : key = s.sequence.toNat + 1
    · omega
    · rw [update_of_ne hkey] at hx
      have := hbound key x hx
      omega

end Append

/-! ### Definitions that go -/

section Delete

variable (protname : String)

def Hit (d : Definition) : Bool := d.protname.toList.isPrefixOf protname.toList

theorem delStep_eq (s : State) (key : ℕ) : delStep protname s key =
      { s with
        protlist := update s.protlist key ((s.protlist key).filter fun d => !Hit protname d)
        destroyed := s.destroyed ++
          (((s.protlist key).filter (Hit protname)).map Definition.id).toList } := by
  cases hfind : s.protlist key with
  | none =>
    have hupdate : update s.protlist key none = s.protlist :=
      hfind ▸ update_eq_self key s.protlist
    simp [delStep, lstFind, hfind, hupdate]
  | some d =>
    cases hhit : Hit protname d with
    | true =>
      have hdel : delStep protname s key = lstDelete s key := by
        rw [Hit] at hhit
        simp [delStep, lstFind, hfind, hhit]
      simp [hdel, lstDelete, destroyProtEntry, hfind, hhit, filter_some]
    | false =>
      have hdel : delStep protname s key = s := by
        rw [Hit] at hhit
        simp [delStep, lstFind, hfind, hhit]
      have hupdate : update s.protlist key (some d) = s.protlist :=
        hfind ▸ update_eq_self key s.protlist
      simp [hdel, hhit, filter_some, hupdate]

theorem foldl_delStep {l : List ℕ} (hl : l.Nodup) (s : State) : l.foldl (delStep protname) s =
      { s with
        protlist := fun key =>
          if key ∈ l then (s.protlist key).filter fun d => !Hit protname d else s.protlist key
        destroyed := s.destroyed ++
          ((l.filterMap s.protlist).filter (Hit protname)).map Definition.id } := by
  induction l generalizing s with
  | nil => simp
  | cons key l ih =>
    obtain ⟨hkey, hl⟩ := nodup_cons.1 hl
    -- the other keys of the list find what was there before
    have hsame : ∀ key' ∈ l, update s.protlist key
        ((s.protlist key).filter fun d => !Hit protname d) key' = s.protlist key' :=
      fun key' hmem => update_of_ne (ne_of_mem_of_not_mem hmem hkey) _ _
    have hlist : (fun key' => if key' ∈ l then
          (update s.protlist key ((s.protlist key).filter fun d => !Hit protname d)
            key').filter fun d => !Hit protname d
        else update s.protlist key ((s.protlist key).filter fun d => !Hit protname d) key') =
        fun key' => if key' ∈ key :: l then (s.protlist key').filter fun d => !Hit protname d
          else s.protlist key' := by
      funext key'
      by_cases hmem : key' ∈ l
      · rw [if_pos hmem, if_pos (mem_cons_of_mem key hmem), hsame key' hmem]
      · by_cases heq : key' = key
        · rw [if_neg hmem, heq, update_self, if_pos mem_cons_self]
        · rw [if_neg hmem, update_of_ne heq, if_neg fun hcons => (mem_cons.1 hcons).elim heq hmem]
    rw [foldl_cons, ih hl, delStep_eq]
    simp only [hlist, filterMap_congr hsame, append_assoc, State.mk.injEq, true_and, and_true]
    cases hfind : s.protlist key with
    | none => simp [hfind]
    | some d => cases hhit : Hit protname d <;> simp [hfind, hhit, filter_some]

theorem delProtocol_eq (s : State) (id : ℕ) : delProtocol s id protname =
      { s with
        protlist := fun key =>
          if key ∈ keys s then (s.protlist key).filter fun d => !Hit protname d
          else s.protlist key
        destroyed := s.destroyed ++
          ((entries s).filter (Hit protname)).map Definition.id ++ [id] } := by
  have hnodup : (keys s).Nodup := nodup_range
  rw [delProtocol, foldl_delStep protname hnodup]
  rfl

theorem entries_delProtocol (s : State) (id : ℕ) :
    entries (delProtocol s id protname) = (entries s).filter fun d => !Hit protname d := by
  have hkeys : keys (delProtocol s id protname) = keys s := by
    rw [delProtocol_eq]
    rfl
  have hlist : ∀ key ∈ keys s, (delProtocol s id protname).protlist key =
      (s.protlist key).filter fun d => !Hit protname d := by
    intro key hkey
    rw [delProtocol_eq]
    exact if_pos hkey
  rw [entries, hkeys, filterMap_congr hlist, entries, filter_filterMap]

theorem bounded_delProtocol {s : State} (h : Bounded s) (id : ℕ) :
    Bounded (delProtocol s id protname) := by
  intro key d hd
  rw [delProtocol_eq] at hd ⊢
  dsimp only at hd ⊢
  split_ifs at hd with hkey
  · exact mem_keys.1 hkey
  · exact h key d hd

end Delete

/-! ## What every request keeps -/

structure Keeps (s : State) (t : Registry) : Prop where
  bounded : Bounded s
  entries : entries s = t.present
  sequence : s.sequence.toNat = t.added
  allocated : s.allocated = t.allocated
  owned : (t.present.map Definition.id ++ s.destroyed).Nodup
  old : ∀ id ∈ t.present.map Definition.id ++ s.destroyed, id < t.allocated

section Keeps

variable {lib : Libraries} {s : State} {t : Registry} {d : Definition}

theorem Keeps.agrees (h : Keeps s t) : Agrees s t := by
  refine ⟨fun d => ?_, h.owned.of_append_right⟩
  rw [← h.entries, mem_entries h.bounded]

theorem keeps_initial : Keeps .initial .initial where
  bounded _ _ h := absurd h (some_ne_none _).symm
  entries := rfl
  sequence := rfl
  allocated := rfl
  owned := nodup_nil
  old _ h := absurd h not_mem_nil

theorem Keeps.owned_cons (h : Keeps s t) {ids : List ℕ}
    (hperm : ids.Perm (s.allocated :: (t.present.map Definition.id ++ s.destroyed))) :
    ids.Nodup ∧ ∀ id ∈ ids, id < t.allocated + 1 := by
  rw [h.allocated] at hperm
  constructor
  · have hnew : t.allocated ∉ t.present.map Definition.id ++ s.destroyed := fun hmem =>
      Nat.lt_irrefl _ (h.old _ hmem)
    exact hperm.nodup_iff.2 (nodup_cons.2 ⟨hnew, h.owned⟩)
  · intro id hid
    rcases mem_cons.1 (hperm.mem_iff.1 hid) with rfl | hid
    · exact Nat.lt_succ_self _
    · exact Nat.lt_succ_of_lt (h.old id hid)

abbrev State.spent (s : State) : State := { s with allocated := s.allocated + 1 }

abbrev Registry.spent (t : Registry) : Registry := { t with allocated := t.allocated + 1 }

theorem Keeps.destroy (h : Keeps s t) : Keeps (destroyProtEntry s.spent s.allocated) t.spent := by
  have hperm : (t.present.map Definition.id ++ (s.destroyed ++ [s.allocated])).Perm
      (s.allocated :: (t.present.map Definition.id ++ s.destroyed)) := by
    rw [← append_assoc]
    exact perm_append_singleton _ _
  obtain ⟨howned, hold⟩ := h.owned_cons hperm
  exact ⟨h.bounded, h.entries, h.sequence, congrArg (· + 1) h.allocated, howned, hold⟩

theorem Keeps.append (h : Keeps s t) (hid : d.id = s.allocated) (hseq : t.added < 2 ^ 32 - 1)
    (alloc : Bool) :
    Keeps (append s.spent d alloc) (t.spent.add d alloc) := by
  have hbound : Bounded s.spent := h.bounded
  have hlt : s.sequence.toNat < 2 ^ 32 - 1 := h.sequence ▸ hseq
  cases alloc with
  | false =>
    rw [append_eq hbound hlt, hid]
    exact h.destroy
  | true =>
    have hperm : ((t.present ++ [d]).map Definition.id ++ s.destroyed).Perm
        (s.allocated :: (t.present.map Definition.id ++ s.destroyed)) := by
      rw [map_append, append_assoc, ← hid]
      exact perm_middle
    obtain ⟨howned, hold⟩ := h.owned_cons hperm
    have hentries := entries_append (d := d) hbound hlt
    have hbounded := bounded_append (d := d) hbound hlt true
    rw [append_eq hbound hlt] at hentries hbounded ⊢
    refine ⟨hbounded, ?_, ?_, congrArg (· + 1) h.allocated, howned, hold⟩
    · exact hentries.trans (congrArg (· ++ [d]) h.entries)
    · exact (toNat_succ hlt).trans (congrArg (· + 1) h.sequence)

variable {protname : String}

theorem filter_hit {l : List Definition}
    (h : ∀ d ∈ l, d.protname.toList <+: protname.toList → d.protname = protname) :
    (l.filter fun d => !Hit protname d) = l.filter fun d => d.protname ≠ protname := by
  refine filter_congr fun d hd => ?_
  by_cases hname : d.protname = protname
  · simp [Hit, hname]
  · have hmiss : d.protname.toList.isPrefixOf protname.toList = false := by
      refine Bool.eq_false_iff.2 fun hpre => hname (h d hd ?_)
      exact isPrefixOf_iff_prefix.1 hpre
    simp [Hit, hname, hmiss]

theorem Keeps.delProtocol (h : Keeps s t)
    (hright : ∀ d ∈ t.present, d.protname.toList <+: protname.toList → d.protname = protname) :
    Keeps (delProtocol s.spent s.allocated protname) (t.spent.del protname) := by
  have hsame : Protocols.entries s.spent = t.present := h.entries
  -- what leaves the list is destroyed, so that all together stay the same
  have hperm : ((t.present.filter fun d => d.protname ≠ protname).map Definition.id ++
      (s.destroyed ++ (t.present.filter (Hit protname)).map Definition.id ++ [s.allocated])).Perm
        (s.allocated :: (t.present.map Definition.id ++ s.destroyed)) := by
    rw [← filter_hit hright, ← append_assoc, ← append_assoc]
    refine (perm_append_singleton _ _).trans (Perm.cons _ ?_)
    refine perm_append_comm.trans ?_
    rw [← append_assoc, ← map_append]
    exact ((filter_append_perm (Hit protname) t.present).map _).append_right _
  obtain ⟨howned, hold⟩ := h.owned_cons hperm
  have hentries := entries_delProtocol protname s.spent s.allocated
  rw [hsame, filter_hit hright] at hentries
  have hbound : Bounded s.spent := h.bounded
  refine ⟨bounded_delProtocol protname hbound _, hentries, ?_, ?_, ?_, ?_⟩
  all_goals rw [delProtocol_eq]
  · exact h.sequence
  · exact congrArg (· + 1) h.allocated
  · rw [hsame]
    exact howned
  · rw [hsame]
    exact hold

theorem find?_isNamed (hbound : Bounded s) (protname : String) :
    (keys s).find? (isNamed s protname) = none ↔ ∀ d ∈ entries s, d.protname ≠ protname := by
  rw [find?_eq_none]
  constructor
  · intro hnone d hd hname
    obtain ⟨key, hkey⟩ := (mem_entries hbound d).1 hd
    refine hnone key (mem_keys.2 (hbound key d hkey)) ?_
    simp [isNamed, lstFind, hkey, hname]
  · intro hall key _ hnamed
    rw [isNamed] at hnamed
    obtain ⟨d, hd, hname⟩ := (any_eq_true _ _).1 hnamed
    exact hall d ((mem_entries hbound d).2 ⟨key, hd⟩) (of_decide_eq_true hname)

variable {p : ProtocolContext}

theorem processProtocolEntry_of_none {id : ℕ} (h : definitionOf lib id p = none) (alloc : Bool) :
    processProtocolEntry lib s id p alloc = destroyProtEntry s id := by
  rw [definitionOf] at h
  rw [processProtocolEntry]
  split at h
  · rename_i protname regex hname hregex
    split_ifs at h with hcomp
    simp [hcomp]
  · rfl

theorem processProtocolEntry_of_some {id : ℕ} (h : definitionOf lib id p = some d) (alloc : Bool) :
    d.id = id ∧ processProtocolEntry lib s id p alloc =
      match (keys s).find? (isNamed s d.protname) with
      | some key =>
        match lstFind s key with
        | some found => replace s key found d alloc
        | none => s
      | none => append s d alloc := by
  rw [definitionOf] at h
  rw [processProtocolEntry]
  split at h
  · rename_i protname regex hname hregex
    split_ifs at h with hcomp
    cases h
    simp [hcomp]
  · cases h

theorem Registry.del_of_notMem
    (h : ∀ d ∈ t.present, d.protname ≠ protname) : t.del protname = t := by
  rw [Registry.del, filter_eq_self.2 fun d hd => decide_eq_true (h d hd)]

/-- **A request that is right keeps the list right.** -/
theorem keeps_step (h : Keeps s t) (r : Request) (hseq : t.added < 2 ^ 32 - 1)
    (hright : Right lib t r) : Keeps (step lib s r) (t.step lib r) := by
  cases r with
  | addProtocol protname prot alloc =>
    have hd : (⟨t.allocated, protname, prot⟩ : Definition) = ⟨s.allocated, protname, prot⟩ := by
      rw [h.allocated]
    simp only [step, Registry.step, addProtocol, hd]
    split_ifs with hcomp
    · exact h.append rfl hseq alloc
    · exact h.destroy
  | delProtocol protname => exact h.delProtocol hright
  | entry p alloc =>
    simp only [step, Registry.step]
    cases hdef : definitionOf lib t.allocated p with
    | none =>
      rw [processProtocolEntry_of_none (h.allocated ▸ hdef)]
      exact h.destroy
    | some d =>
      have hnew : ∀ d' ∈ t.present, d'.protname ≠ d.protname := hright d hdef
      obtain ⟨hid, hentry⟩ := processProtocolEntry_of_some (h.allocated ▸ hdef) alloc
      have hbound : Bounded s.spent := h.bounded
      have hfind := (find?_isNamed hbound d.protname).2 (h.entries ▸ hnew)
      have hdel : t.spent.del d.protname = t.spent := Registry.del_of_notMem hnew
      rw [hentry, hfind]
      dsimp only
      rw [hdel]
      exact h.append hid hseq alloc

theorem not_agrees_delProtocol (h : Keeps s t) (hwrong : ¬ Right lib t (.delProtocol protname)) :
    ¬ Agrees (step lib s (.delProtocol protname)) (t.step lib (.delProtocol protname)) := by
  rw [Right] at hwrong
  push Not at hwrong
  obtain ⟨d, hd, hprefix, hname⟩ := hwrong
  intro hagrees
  have hmem : d ∈ (t.step lib (.delProtocol protname)).present :=
    mem_filter.2 ⟨hd, decide_eq_true hname⟩
  have hbound : Bounded s.spent := h.bounded
  have hin := (mem_entries (bounded_delProtocol protname hbound s.allocated) d).2
    ((hagrees.1 d).2 hmem)
  rw [entries_delProtocol, mem_filter] at hin
  have hhit : Hit protname d = true := isPrefixOf_iff_prefix.2 hprefix
  rw [hhit] at hin
  exact absurd hin.2 (by decide)

theorem destroyed_replace {key : ℕ} {found : Definition} (hfound : s.protlist key = some found)
    (alloc : Bool) :
    (replace s key found d alloc).destroyed = s.destroyed ++ [found.id] ++ [found.id] := by
  have hdelete : (lstDelete s key).destroyed = s.destroyed ++ [found.id] := by
    rw [lstDelete, hfound]
    rfl
  rw [replace, ← hdelete, lstInsert]
  split_ifs <;> rfl

theorem not_agrees_entry (h : Keeps s t) {alloc : Bool} (hwrong : ¬ Right lib t (.entry p alloc)) :
    ¬ Agrees (step lib s (.entry p alloc)) (t.step lib (.entry p alloc)) := by
  rw [Right] at hwrong
  push Not at hwrong
  obtain ⟨new, hdef, d, hd, hname⟩ := hwrong
  have hbound : Bounded s.spent := h.bounded
  obtain ⟨-, hentry⟩ := processProtocolEntry_of_some (s := s.spent) hdef alloc
  rw [← h.allocated] at hentry
  cases hfind : (keys s.spent).find? (isNamed s.spent new.protname) with
  | none => exact absurd hname ((find?_isNamed hbound _).1 hfind d (h.entries ▸ hd))
  | some key =>
    have hnamed : isNamed s.spent new.protname key = true :=
      find?_some hfind
    rw [isNamed] at hnamed
    obtain ⟨found, hfound, -⟩ := (any_eq_true _ _).1 hnamed
    rw [hfind] at hentry
    dsimp only at hentry
    rw [hfound] at hentry
    rintro ⟨-, hnodup⟩
    simp only [step, hentry] at hnodup
    rw [destroyed_replace hfound, append_assoc] at hnodup
    exact absurd hnodup.of_append_right (by simp)

end Keeps

/-! ## Every sequence of requests -/

theorem Registry.added_step (lib : Libraries) (t : Registry) (r : Request) :
    (t.step lib r).added ≤ t.added + if r.isAddition then 1 else 0 := by
  cases r with
  | addProtocol protname prot alloc =>
    simp only [Registry.step, Registry.add, Request.isAddition, if_true]
    split_ifs <;> simp
  | delProtocol protname => simp [Registry.step, Registry.del, Request.isAddition]
  | entry p alloc =>
    simp only [Registry.step, Registry.add, Registry.del, Request.isAddition, if_true]
    split
    · split_ifs <;> simp
    · simp

theorem along_added (lib : Libraries) {requests : List Request} {t : Registry}
    (h : t.added + requests.countP Request.isAddition < 2 ^ 32 - 1) :
    Along (fun t r => (Registry.step lib t r, ())) (fun t _ => t.added < 2 ^ 32 - 1) t
      requests := by
  induction requests generalizing t with
  | nil => trivial
  | cons r requests ih =>
    have hadded := t.added_step lib r
    rw [countP_cons] at h
    refine ⟨by omega, ih ?_⟩
    dsimp only
    omega

/-- **The list is right after every request, and no definition is destroyed twice, exactly if
no name in the list is a proper prefix of one that is deleted and no entry of a configuration
has a name that is in the list**; for fewer additions than there are keys. -/
theorem protocol_list (lib : Libraries) (requests : List Request)
    (h : requests.countP Request.isAddition < 2 ^ 32 - 1) : (∀ before, before <+: requests →
      Agrees (before.foldl (step lib) .initial) (before.foldl (Registry.step lib) .initial)) ↔
      Along (fun t r => (Registry.step lib t r, ())) (Right lib) .initial requests := by
  have hpossible := along_added lib (t := .initial) (by rwa [Registry.initial, Nat.zero_add])
  refine prefixes_iff (R := Keeps) (fun s t => Keeps.agrees)
    (fun s t r hkeeps hseq hright => keeps_step hkeeps r hseq hright)
    (fun s t r hkeeps _ hwrong => ?_) keeps_initial hpossible
  cases r with
  | addProtocol protname prot alloc => exact absurd trivial hwrong
  | delProtocol protname => exact not_agrees_delProtocol hkeeps hwrong
  | entry p alloc => exact not_agrees_entry hkeeps hwrong

def compileAll : Libraries := ⟨fun _ => true⟩

def exampleProt : ProtocolDef := ⟨".*", false, true, false, 0⟩

/-- Two definitions, of which one is deleted. -/
theorem protocol_list_two :
    let requests := [Request.addProtocol "HTTP" exampleProt true,
      .addProtocol "DNS" exampleProt true, .delProtocol "HTTP"]
    requests.countP Request.isAddition < 2 ^ 32 - 1 ∧ ∀ before, before <+: requests →
        Agrees (before.foldl (step compileAll) .initial)
          (before.foldl (Registry.step compileAll) .initial) := by
  intro requests
  have h : requests.countP Request.isAddition < 2 ^ 32 - 1 := by decide
  refine ⟨h, (protocol_list compileAll requests h).2 ⟨trivial, trivial, ?_, trivial⟩⟩
  have hnames : ∀ d ∈ [(⟨0, "HTTP", exampleProt⟩ : Definition), ⟨1, "DNS", exampleProt⟩],
      d.protname.toList <+: "HTTP".toList → d.protname = "HTTP" := by decide
  exact hnames

/-- To delete `HTTPS` deletes `HTTP`, and a definition that a configuration replaces is destroyed
twice. -/
theorem protocol_list_wrong :
    entries ([Request.addProtocol "HTTP" exampleProt true, .delProtocol "HTTPS"].foldl
      (step compileAll) .initial) = [] ∧
    (([Request.addProtocol "HTTP" exampleProt true, .delProtocol "HTTPS"].foldl
      (Registry.step compileAll) .initial).present.map Definition.protname) = ["HTTP"] ∧
    ([Request.addProtocol "HTTP" exampleProt true,
      .entry ⟨some "HTTP", some ".*", false, true, false, 0⟩ true].foldl
      (step compileAll) .initial).destroyed = [0, 0] := by
  decide +kernel

end AppView.Protocols

import AppView.CString

/-!
# DNS requests and answers

`getDNSName` decodes the name of a request into a buffer of 256 bytes and keeps it in a field of
255 bytes; `getDNSAnswer` collects the addresses of a response in one or more buffers.
-/

namespace AppView.Dns

open List

/-! ## The name of a request -/

def isLegalLabelChar (x : UInt8) : Bool :=
  (97 ≤ x && x ≤ 122) || (65 ≤ x && x ≤ 90) || (48 ≤ x && x ≤ 57) || x = 45

/-- A `char`, which has a sign. -/
def charInt (b : UInt8) : ℤ := if b < 128 then b.toNat else b.toNat - 256

/-- The loop: what is in `dnsName`, whether it did not return `-1`, and whether the byte at
`pkt_end` has been read. -/
structure Labels where
  name : List UInt8
  legal : Bool := true
  pastEnd : Bool := false

/-- Does `dnsSecurity` read the byte at `pkt_end`? `strnlen` looks for a NUL in the bytes from
`dname` on, of which it takes 255 at most. -/
def dnsSecurity (dname : List UInt8) : Bool := dname.length < 255 && !dname.contains 0

/-- The loop over the labels, at the bytes from `dname` to `pkt_end`. The first `skip` of them
are those that the loop over the characters of a label has passed. -/
def labels : ℕ → List UInt8 → List UInt8 → Labels
  | _, [], name => { name, pastEnd := true }
  | skip + 1, _ :: rest, name => labels skip rest name
  | 0, b :: rest, name =>
    let labelLen := charInt b
    if b = 0 then { name }
    else if 63 < labelLen ∨ rest.length ≤ labelLen then
      { name, legal := false, pastEnd := dnsSecurity rest }
    -- the sum is compared with a `size_t`
    else if name.length + labelLen < 0 ∨ 256 ≤ name.length + labelLen then
      { name, legal := false, pastEnd := dnsSecurity rest }
    else
      let label := rest.take labelLen.toNat
      let copied := label.takeWhile isLegalLabelChar
      if label.all isLegalLabelChar then labels labelLen.toNat rest (name ++ label ++ [46])
      else
        { name := name ++ copied, legal := false,
          pastEnd := dnsSecurity (rest.drop copied.length) }

/-- The part of an active `net_info_t`; the field `dnsName` has 255 bytes. -/
structure NetName where
  dnsName : List UInt8 := replicate 255 0
  dnsSend : Bool := false
deriving DecidableEq

/-- The bit-fields `opcode` and `qr` of `dns_header`, from the lowest bit on. -/
def isRequest (pkt : List UInt8) : Bool :=
  (pkt.getD 2 0).toNat / 2 % 16 = 0 || (pkt.getD 2 0).toNat % 2 = 1

def getDNSName (net : Option NetName) (pkt : List UInt8) : ℤ × Option NetName :=
  match net with
  | none => (-1, none)
  | some net =>
    if isRequest pkt = false then (0, some net)
    else
      let l := labels 0 (pkt.drop 12) []
      if l.legal = false then (-1, some net)
      else
        let used := l.name.length
        let dnsName := l.name.set (used - 1) 0
        if cStr (dnsName.take used) = cStr (net.dnsName.take used) then
          (0, some { net with dnsSend := true })
        else (0, some ⟨strncpy (cStr dnsName) used ++ net.dnsName.drop used, false⟩)

/-! ## Names that are decoded -/

theorem labels_passed (l rest name : List UInt8) :
    labels l.length (l ++ rest) name = labels 0 rest name := by
  induction l with
  | nil => rfl
  | cons b l ih => exact ih

/-- The name in a packet. -/
def encode (ls : List (List UInt8)) : List UInt8 :=
  ls.flatMap (fun l => UInt8.ofNat l.length :: l) ++ [0]

def dots (ls : List (List UInt8)) : List UInt8 := ls.flatMap (· ++ [46])

/-- The labels with periods between them. -/
def dotted (ls : List (List UInt8)) : List UInt8 := (dots ls).dropLast

def IsLabel (l : List UInt8) : Prop :=
  1 ≤ l.length ∧ l.length ≤ 63 ∧ l.all isLegalLabelChar = true

instance (l : List UInt8) : Decidable (IsLabel l) := inferInstanceAs (Decidable (_ ∧ _))

variable {ls : List (List UInt8)}

theorem labels_encode (hls : ∀ l ∈ ls, IsLabel l) (rest name : List UInt8)
    (hsize : name.length + (dots ls).length ≤ 256) :
    labels 0 (encode ls ++ rest) name = { name := name ++ dots ls } := by
  induction ls generalizing name with
  | nil => simp [encode, labels, dots]
  | cons l ls ih =>
    obtain ⟨hpos, hlong, hlegal⟩ := hls l mem_cons_self
    have hdots : dots (l :: ls) = l ++ [46] ++ dots ls := flatMap_cons
    have hbyte : (UInt8.ofNat l.length).toNat = l.length :=
      UInt8.toNat_ofNat_of_lt (show l.length < 256 by omega)
    have hsmall : UInt8.ofNat l.length < 128 := by
      rw [UInt8.lt_iff_toNat_lt, hbyte]
      exact Nat.lt_of_le_of_lt hlong (by decide)
    have hlen : charInt (UInt8.ofNat l.length) = l.length := by
      rw [charInt, if_pos hsmall, hbyte]
    have hne : UInt8.ofNat l.length ≠ 0 := fun h0 => by
      rw [h0] at hbyte
      exact absurd hbyte (by simp; omega)
    have henc : encode (l :: ls) ++ rest = UInt8.ofNat l.length :: (l ++ (encode ls ++ rest)) := by
      simp [encode]
    rw [hdots] at hsize ⊢
    simp only [length_append, length_singleton] at hsize
    rw [henc, labels, if_neg hne, hlen, if_neg, if_neg, Int.toNat_natCast, take_left,
      if_pos hlegal, labels_passed, ih fun l' hl' => hls l' (mem_cons_of_mem l hl')]
    · simp
    · simp
      omega
    · omega
    · have hpos : 0 < (encode ls ++ rest).length := length_pos_iff.2 (by simp [encode])
      rw [length_append]
      omega

theorem cStr_take_eq_iff (x d : List UInt8) : cStr (x.take (d.length + 1)) = d ↔ cStr x = d := by
  induction d generalizing x with
  | nil => cases x <;> simp [cStr]
  | cons c d ih =>
    cases x with
    | nil => simp [cStr]
    | cons b x =>
      by_cases hb : b = 0
      · simp [cStr, hb]
      · simpa [cStr, hb] using fun _ => ih x

theorem ne_zero_of_legal {c : UInt8} (h : isLegalLabelChar c = true) : c ≠ 0 := by
  rintro rfl
  exact absurd h (by decide)

theorem nul_notMem_dots (hls : ∀ l ∈ ls, IsLabel l) : ∀ c ∈ dots ls, c ≠ 0 := by
  intro c hc
  obtain ⟨l, hl, hc⟩ := mem_flatMap.1 hc
  rcases mem_append.1 hc with hc | hc
  · exact ne_zero_of_legal (all_eq_true.1 (hls l hl).2.2 c hc)
  · rcases mem_singleton.1 hc with rfl
    decide

theorem dots_eq (hne : ls ≠ []) : dots ls = dotted ls ++ [46] := by
  obtain ⟨init, l, rfl⟩ := (eq_nil_or_concat' ls).resolve_left hne
  simp [dotted, dots]

/-- The name is stored, and it counts as sent if it was stored before. -/
def Stores (name : List UInt8) (net : NetName) (r : ℤ × Option NetName) : Prop :=
  ∃ net', r = (0, some net') ∧ cStr net'.dnsName = name ∧
    (net'.dnsSend = true ↔ cStr net.dnsName = name)

theorem stores_of_isRequest {header : List UInt8} (hheader : header.length = 12)
    {ls : List (List UInt8)} (hne : ls ≠ []) (hls : ∀ l ∈ ls, IsLabel l)
    (hsize : (dotted ls).length ≤ 253) (rest : List UInt8) (net : NetName)
    (hreq : isRequest (header ++ (encode ls ++ rest)) = true) :
    Stores (dotted ls) net (getDNSName (some net) (header ++ (encode ls ++ rest))) := by
  have hdots := dots_eq hne
  have hno : ∀ c ∈ dotted ls, c ≠ 0 := fun c hc =>
    nul_notMem_dots hls c (hdots ▸ mem_append_left _ hc)
  have hlabels : labels 0 ((header ++ (encode ls ++ rest)).drop 12) [] =
      { name := dotted ls ++ [46] } := by
    rw [drop_left' hheader, labels_encode hls rest [] (by simp [hdots]; omega), hdots]
    rfl
  have hset : (dotted ls ++ [46]).set ((dotted ls).length + 1 - 1) 0 = dotted ls ++ [0] := by
    simp
  have hname : cStr (dotted ls ++ [0]) = dotted ls := cStr_append_nul hno
  rw [getDNSName, if_neg (by simp [hreq]), hlabels, if_neg (by simp)]
  simp only [length_append, length_singleton, hset, hname]
  rw [take_of_length_le (by simp), hname]
  have hcmp := eq_comm.trans (cStr_take_eq_iff net.dnsName (dotted ls))
  by_cases hsame : cStr net.dnsName = dotted ls
  · exact ⟨_, if_pos (hcmp.2 hsame), hsame, by simp [hsame]⟩
  · refine ⟨_, if_neg (mt hcmp.1 hsame), ?_, by simp [hsame]⟩
    have hcopy : strncpy (dotted ls) ((dotted ls).length + 1) = dotted ls ++ [0] := by
      simp [strncpy, take_append, take_of_length_le]
    rw [hcopy, append_assoc]
    exact cStr_append_nul hno

/-- **The dotted name is stored** exactly if the third byte of the packet is odd or has zeros in
the bits 1 to 4, or the name is in the field and marked already. -/
theorem getDNSName_dotted {header : List UInt8} (hheader : header.length = 12)
    {ls : List (List UInt8)} (hne : ls ≠ []) (hls : ∀ l ∈ ls, IsLabel l)
    (hsize : (dotted ls).length ≤ 253) (rest : List UInt8) (net : NetName) :
    Stores (dotted ls) net (getDNSName (some net) (header ++ (encode ls ++ rest))) ↔
      (header.getD 2 0).toNat % 2 = 1 ∨ (header.getD 2 0).toNat / 2 % 16 = 0 ∨
      cStr net.dnsName = dotted ls ∧ net.dnsSend = true := by
  have hbyte : (header ++ (encode ls ++ rest)).getD 2 0 = header.getD 2 0 :=
    getD_append _ _ _ _ (by omega)
  have hflags : isRequest (header ++ (encode ls ++ rest)) = true ↔
      (header.getD 2 0).toNat % 2 = 1 ∨ (header.getD 2 0).toNat / 2 % 16 = 0 := by
    rw [isRequest, hbyte, Bool.or_eq_true, decide_eq_true_iff, decide_eq_true_iff, or_comm]
  rw [← or_assoc, ← hflags]
  by_cases hreq : isRequest (header ++ (encode ls ++ rest)) = true
  · exact iff_of_true (stores_of_isRequest hheader hne hls hsize rest net hreq) (.inl hreq)
  · -- the packet is passed over, and the field is as it was
    rw [getDNSName, if_pos (Bool.eq_false_of_not_eq_true hreq)]
    constructor
    · rintro ⟨net', h, hname, hsend⟩
      cases h
      exact .inr ⟨hname, hsend.2 hname⟩
    · rintro (h | ⟨hname, hsend⟩)
      · exact absurd h hreq
      · exact ⟨net, rfl, hname, iff_of_true hsend hname⟩

theorem getDNSName_www : Stores [119, 46, 97, 98] {}
    (getDNSName (some {}) (replicate 12 0 ++ (encode [[119], [97, 98]] ++ []))) :=
  (getDNSName_dotted (by decide) (by decide) (by decide) (by decide) [] {}).2 (by decide)

/-- A request with the bit for a truncated message and without that for recursion: `opcode` is
taken from the wrong end of the byte, and no name is stored. -/
theorem getDNSName_truncated : ¬ Stores (dotted [[119], [97, 98]]) {}
    (getDNSName (some {}) ([0, 0, 2] ++ replicate 9 0 ++ encode [[119], [97, 98]])) := by
  rintro ⟨net', h, hname, -⟩
  have hsame : getDNSName (some {}) ([0, 0, 2] ++ replicate 9 0 ++ encode [[119], [97, 98]]) =
      (0, some {}) := by decide +kernel
  cases hsame.symm.trans h
  exact absurd hname (by decide +kernel)

/-! ## Reads and writes -/

/-- The places of `dnsName` that are written. -/
def Labels.writes (l : Labels) : List ℤ :=
  (range l.name.length).map (fun i : ℕ => (i : ℤ)) ++
    if l.legal then [(l.name.length : ℤ) - 1] else []

structure InBounds (net : NetName) (pkt : List UInt8) : Prop where
  header : 2 < pkt.length
  reads : isRequest pkt → (labels 0 (pkt.drop 12) []).pastEnd = false
  writes : isRequest pkt → ∀ i ∈ (labels 0 (pkt.drop 12) []).writes, 0 ≤ i ∧ i < 256
  stored : ∀ net', (getDNSName (some net) pkt).2 = some net' → 0 ∈ net'.dnsName.take 255

theorem dnsSecurity_of_mem {dname : List UInt8} (h : 0 ∈ dname) : dnsSecurity dname = false := by
  simp [dnsSecurity, h]

/-- A NUL is not among the legal characters. -/
theorem mem_drop_of_legal {rest : List UInt8} {n : ℕ} (h : 0 ∈ rest)
    (hlegal : (rest.take n).all isLegalLabelChar = true) : 0 ∈ rest.drop n := by
  rw [← take_append_drop n rest, mem_append] at h
  exact h.resolve_left fun h0 => ne_zero_of_legal (all_eq_true.1 hlegal 0 h0) rfl

theorem cStr_cons_append {b : UInt8} {label : List UInt8} (hb : b ≠ 0)
    (hlegal : label.all isLegalLabelChar = true) (rest : List UInt8) :
    cStr (b :: (label ++ rest)) = b :: (label ++ cStr rest) := by
  have hno : ∀ c ∈ label, decide (c ≠ 0) = true := fun c hc =>
    decide_eq_true (ne_zero_of_legal (all_eq_true.1 hlegal c hc))
  rw [cStr, takeWhile_cons, if_pos (decide_eq_true hb), takeWhile_append_of_pos hno]
  rfl

/-- Without a negative length, a label takes as many bytes of the packet as of `dnsName`, and
the loop stays before the end of the packet. -/
theorem labels_bounds (bs : List UInt8) (skip : ℕ) (name : List UInt8) (hskip : skip < bs.length)
    (hbytes : ∀ b ∈ cStr (bs.drop skip), b < 128) (hnul : 0 ∈ bs.drop skip)
    (hname : name.length ≤ 256) :
    let l := labels skip bs name
    l.pastEnd = false ∧ l.name.length ≤ 256 ∧
    (l.legal = true → l.name.length ≤ name.length + (cStr (bs.drop skip)).length ∧
      (l.name = [] → name = [] ∧ cStr (bs.drop skip) = [])) := by
  induction bs generalizing skip name with
  | nil => exact absurd hskip (Nat.not_lt_zero skip)
  | cons b rest ih =>
    cases skip with
    | succ skip => exact ih skip name (Nat.lt_of_succ_lt_succ hskip) hbytes hnul hname
    | zero =>
      rw [drop_zero] at hbytes hnul ⊢
      rw [labels]
      by_cases hb : b = 0
      · rw [if_pos hb]
        exact ⟨rfl, hname, fun _ => ⟨Nat.le_add_right _ _, fun h => ⟨h, by simp [cStr, hb]⟩⟩⟩
      · have hlen : charInt b = b.toNat :=
          if_pos (hbytes b (by simp [cStr, hb]))
        have hrest : 0 ∈ rest := (mem_cons.1 hnul).resolve_left (Ne.symm hb)
        rw [if_neg hb, hlen]
        dsimp only
        split_ifs with hlabel hfull hlegal
        · exact ⟨dnsSecurity_of_mem hrest, hname, False.elim⟩
        · exact ⟨dnsSecurity_of_mem hrest, hname, False.elim⟩
        · rw [Int.toNat_natCast] at hlegal ⊢
          have hcut := cStr_cons_append hb hlegal (rest.drop b.toNat)
          rw [take_append_drop] at hcut
          have htaken : (rest.take b.toNat).length = b.toNat := length_take_of_le (by omega)
          obtain ⟨hend, hsize, hdone⟩ := ih b.toNat (name ++ rest.take b.toNat ++ [46]) (by omega)
            (fun c hc => hbytes c (hcut ▸ mem_cons_of_mem b (mem_append_right _ hc)))
            (mem_drop_of_legal hrest hlegal)
            (by simp only [length_append, htaken, length_singleton]; omega)
          refine ⟨hend, hsize, fun h => ?_⟩
          obtain ⟨hle, hnil⟩ := hdone h
          constructor
          · simp only [length_append, length_singleton] at hle
            rw [hcut, length_cons, length_append]
            omega
          · exact fun h0 => absurd (hnil h0).1 (by simp)
        · have hcopied := takeWhile_prefix isLegalLabelChar (l := rest.take (b.toNat : ℤ).toNat)
          have htaken := hcopied.length_le
          rw [length_take] at htaken
          refine ⟨dnsSecurity_of_mem (mem_drop_of_legal hrest ?_), ?_, False.elim⟩
          · have hfront := take_prefix (b.toNat : ℤ).toNat rest
            rw [← prefix_iff_eq_take.1 (hcopied.trans hfront)]
            exact all_takeWhile
          · rw [length_append]
            omega

theorem nul_mem_stored {name : List UInt8} (hname : name ≠ []) (hsize : name.length ≤ 255)
    (old : List UInt8) :
    0 ∈ (strncpy (cStr (name.set (name.length - 1) 0)) name.length ++ old).take 255 := by
  obtain ⟨init, c, rfl⟩ := (eq_nil_or_concat' name).resolve_left hname
  have hset : (init ++ [c]).set ((init ++ [c]).length - 1) 0 = init ++ [0] := by simp
  have hshort : (cStr (init ++ [0])).length ≤ init.length := by
    rw [cStr, takeWhile_append]
    split_ifs
    · simp
    · have hfront := takeWhile_prefix (l := init) (· ≠ 0)
      exact hfront.length_le
  rw [hset, take_append, take_of_length_le]
  · refine mem_append_left _ ?_
    simp only [strncpy, take_append, length_append, length_singleton, mem_append]
    refine .inr ?_
    rw [take_replicate]
    exact mem_replicate.2 ⟨by omega, rfl⟩
  · rw [strncpy, length_take]
    exact (Nat.min_le_left _ _).trans hsize

/-- A name of 1 to 255 bytes below 128 with its end in the packet. -/
structure Terminated (name : List UInt8) : Prop where
  nul : 0 ∈ name
  ne : cStr name ≠ []
  size : (cStr name).length ≤ 255
  bytes : ∀ b ∈ cStr name, b < 128

/-- A record of `ns_parserr`, with the text of its address if it has one. -/
structure Rr where
  name : String
  addr : Option String

/-- The answer: `json` with its `addrs`. -/
structure Answer where
  domain : Option String := none
  addrs : List String := []
deriving DecidableEq

/-- The answers in a message, if `ns_initparse` does not fail; none for one where `ns_parserr`
does. -/
abbrev Resolver := List UInt8 → Option (List (Option Rr))

def parseRecords : List (Option Rr) → Answer → ℕ → Bool × Answer
  | [], json, _ => (true, json)
  | none :: _, json, _ => (false, json)
  | some rr :: rrs, json, first =>
    parseRecords rrs ⟨if first = 0 then some rr.name else json.domain,
      json.addrs ++ rr.addr.toList⟩ 1

def parseDNSAnswer (lib : Resolver) (buf : List UInt8) (len : ℕ) (json : Answer) (first : ℕ) :
    Bool × Answer :=
  match lib (buf.take len) with
  | none | some [] => (false, json)
  | some rrs => parseRecords rrs json first

/-- An entry, with the memory from its base on. -/
structure Iovec where
  base : Option (List UInt8)
  len : ℕ

/-- The loop over the entries: `result`, none until it is assigned, the answer, and the lengths
that the resolver was given. -/
structure Parsed where
  result : Option Bool := none
  json : Answer := {}
  lengths : List ℕ := []

/-- The loop over the entries from index `i` on. -/
def parseEntries (lib : Resolver) (len : ℕ) : ℕ → List Iovec → Parsed → Parsed
  | _, [], p => p
  | i, iov :: rest, p =>
    match iov.base with
    | none => parseEntries lib len (i + 1) rest p
    | some buf =>
      if iov.len > 0 then
        let lengths := p.lengths ++ [len]
        match parseDNSAnswer lib buf len p.json i with
        | (true, json) => parseEntries lib len (i + 1) rest ⟨some true, json, lengths⟩
        | (false, json) => ⟨p.result, json, lengths⟩
      else parseEntries lib len (i + 1) rest p

/-- What is received: `BUF`, `MSG` with its entries, or `IOV`, where `len` is their number. -/
inductive Received where
  | buf (bytes : List UInt8)
  | msg (iovs : List Iovec)
  | iov (iovs : List Iovec)

/-- The switch over the type of the data. -/
def parseReceived (lib : Resolver) (data : Received) (len : ℕ) : Parsed :=
  match data with
  | .buf bytes =>
    let (ok, json) := parseDNSAnswer lib bytes len {} 0
    ⟨some ok, json, [len]⟩
  | .msg iovs => parseEntries lib len 0 iovs {}
  | .iov iovs => parseEntries lib len 0 (iovs.take len) {}

/-- `getDNSAnswer` for an active socket and `len > 0`: what `net->dnsAnswer` is afterwards.
`unassigned` is the value that `result` has before it is assigned. -/
def getDNSAnswer (lib : Resolver) (unassigned : Bool) (data : Received) (len : ℕ) : Option Answer :=
  let p := parseReceived lib data len
  if p.result.getD unassigned then some p.json else none

/-- The entry is a response with the records `rrs`. -/
def Iovec.Holds (lib : Resolver) (iov : Iovec) (rrs : List Rr) : Prop :=
  iov.len > 0 ∧ ∃ buf, iov.base = some buf ∧ lib (buf.take iov.len) = some (rrs.map some)

def addresses (rrs : List Rr) : List String := rrs.flatMap fun rr => rr.addr.toList

/-- Each entry is parsed over its own bytes, and the addresses of all of them are stored,
whatever an unassigned variable has. -/
structure Collects (lib : Resolver) (es : List (Iovec × List Rr)) (data : Received) (len : ℕ) :
    Prop where
  lengths : (parseReceived lib data len).lengths = es.map fun e => e.1.len
  stored : ∀ unassigned, (getDNSAnswer lib unassigned data len).map Answer.addrs =
    if es = [] then none else some (es.flatMap fun e => addresses e.2)

theorem parseRecords_addrs (rrs : List Rr) (json : Answer) (first : ℕ) :
    ∃ json', parseRecords (rrs.map some) json first = (true, json') ∧
      json'.addrs = json.addrs ++ addresses rrs := by
  induction rrs generalizing json first with
  | nil => exact ⟨json, rfl, (append_nil _).symm⟩
  | cons rr rrs ih =>
    obtain ⟨json', hrun, haddrs⟩ := ih ⟨_, json.addrs ++ rr.addr.toList⟩ 1
    exact ⟨json', hrun, by simp [haddrs, addresses]⟩

variable {lib : Resolver} {len : ℕ} {es : List (Iovec × List Rr)}

/-- An entry of the length `len` ends the loop if it has no answer. -/
theorem parseEntries_cons {iov : Iovec} {rrs : List Rr} (h : iov.Holds lib rrs) (i : ℕ)
    (rest : List Iovec) (p : Parsed) : ∃ json', json'.addrs = p.json.addrs ++ addresses rrs ∧
    parseEntries lib iov.len i (iov :: rest) p =
      if rrs = [] then ⟨p.result, p.json, p.lengths ++ [iov.len]⟩
      else parseEntries lib iov.len (i + 1) rest ⟨some true, json', p.lengths ++ [iov.len]⟩ := by
  obtain ⟨hpos, buf, hbase, hlib⟩ := h
  obtain ⟨json', hrun, haddrs⟩ := parseRecords_addrs rrs p.json i
  refine ⟨json', haddrs, ?_⟩
  rw [parseEntries, hbase]
  dsimp only
  rw [if_pos hpos, parseDNSAnswer, hlib]
  cases rrs with
  | nil => rfl
  | cons rr rrs =>
    rw [if_neg (cons_ne_nil rr rrs)]
    simp only [map_cons] at hrun ⊢
    rw [hrun]

/-- Whatever the entries are, the resolver is given the argument `len`. -/
theorem parseEntries_lengths (lib : Resolver) (len i : ℕ) (iovs : List Iovec) (p : Parsed) :
    ∃ k, (parseEntries lib len i iovs p).lengths = p.lengths ++ replicate k len := by
  induction iovs generalizing i p with
  | nil => exact ⟨0, (append_nil _).symm⟩
  | cons iov iovs ih =>
    rw [parseEntries]
    split
    · exact ih _ _
    · split_ifs
      · dsimp only
        split
        · obtain ⟨k, hk⟩ := ih (i + 1) ⟨some true, _, p.lengths ++ [len]⟩
          exact ⟨k + 1, by rw [hk, replicate_succ, append_assoc, singleton_append]⟩
        · exact ⟨1, rfl⟩
      · exact ih _ _

/-- Entries that all have an answer, the last one perhaps not. -/
theorem parseEntries_addrs (hes : ∀ e ∈ es, e.1.Holds lib e.2 ∧ e.1.len = len)
    (hrrs : ∀ e ∈ es.dropLast, e.2 ≠ []) (i : ℕ) (json : Answer) (lengths : List ℕ) :
    let p := parseEntries lib len i (es.map Prod.fst) ⟨some true, json, lengths⟩
    p.result = some true ∧ p.json.addrs = json.addrs ++ (es.flatMap fun e => addresses e.2) ∧
      p.lengths = lengths ++ es.map fun e => e.1.len := by
  induction es generalizing i json lengths with
  | nil => exact ⟨rfl, (append_nil _).symm, (append_nil _).symm⟩
  | cons e es ih =>
    obtain ⟨hholds, rfl⟩ := hes e mem_cons_self
    obtain ⟨json', haddrs, hrun⟩ := parseEntries_cons hholds i (es.map Prod.fst)
      ⟨some true, json, lengths⟩
    rw [map_cons, hrun]
    by_cases hempty : e.2 = []
    · have hlast : es = [] := by
        by_contra hne
        rw [dropLast_cons_of_ne_nil hne] at hrrs
        exact hrrs e mem_cons_self hempty
      simp [hlast, hempty, addresses]
    · have htail : ∀ e' ∈ es.dropLast, e'.2 ≠ [] := fun e' he' => hrrs e' (by
        rw [dropLast_cons_of_ne_nil (ne_nil_of_mem (mem_of_mem_dropLast he'))]
        exact mem_cons_of_mem e he')
      obtain ⟨hresult, hjson, hlengths⟩ := ih (fun e' he' => hes e' (mem_cons_of_mem e he')) htail
        (i + 1) json' (lengths ++ [e.1.len])
      rw [if_neg hempty]
      refine ⟨hresult, ?_, ?_⟩
      · rw [hjson, haddrs, append_assoc, flatMap_cons]
      · rw [hlengths, append_assoc, map_cons, singleton_append]

/-- If the loop comes to every entry, all but the last have an answer. -/
theorem answers_of_lengths (hes : ∀ e ∈ es, e.1.Holds lib e.2 ∧ e.1.len = len) (i : ℕ) (p : Parsed)
    (h : (parseEntries lib len i (es.map Prod.fst) p).lengths.length =
      p.lengths.length + es.length) : ∀ e ∈ es.dropLast, e.2 ≠ [] := by
  induction es generalizing i p with
  | nil => simp
  | cons e es ih =>
    obtain ⟨hholds, rfl⟩ := hes e mem_cons_self
    obtain ⟨json', -, hrun⟩ := parseEntries_cons hholds i (es.map Prod.fst) p
    rw [map_cons, hrun] at h
    intro e' he'
    have hne : es ≠ [] := fun h0 => by simp [h0] at he'
    rw [dropLast_cons_of_ne_nil hne, mem_cons] at he'
    split_ifs at h with hempty
    · have := length_pos_iff.2 hne
      simp only [length_append, length_cons, length_nil] at h
      omega
    · rcases he' with rfl | he'
      · exact hempty
      · refine ih (fun e'' he'' => hes e'' (mem_cons_of_mem e he'')) (i + 1)
          ⟨some true, json', p.lengths ++ [e.1.len]⟩ ?_ e' he'
        rw [h, length_append, length_cons, length_singleton]
        omega

/-- A resolver for messages of two bytes at least. -/
def pairs : Resolver := fun bs => if bs.length < 2 then none else some [some ⟨"a", some "b"⟩]

end AppView.Dns

import AppView.Framework.Lines

/-!
# Events of a session and their ids

The command line tool lists the events of a file and shows an id for each, which is the offset
of its line in base 62. Given an id it seeks there and prints the first event it reads.

**`event_id_round_trip`**: the id of an event selects that event exactly if no other event is
read between the offset shown and the event's own, and, for the offset 0, if the search for the
last lines finds nothing: an offset of 0 is taken for no offset at all.

**`logs_last`** is about the `logs` command, **`reverse_search`** about the search itself.
-/

namespace AppView.Events

open AppView.Framework List Option

abbrev Bytes := List UInt8

def newline : UInt8 := 0x0A
def carriageReturn : UInt8 := 0x0D

/-! ## Ids -/

def codes : List Char :=
  "0123456789abcdefghijklmnopqrstuvwxyzABCDEFGHIJKLMNOPQRSTUVWXYZ".toList

def codesLen : ℕ := 62

def encodeLoop : ℕ → ℕ → List Char
  | 0, _ => []
  | fuel + 1, offset =>
    if offset > 0 then
      codes.getD (offset % codesLen) '0' :: encodeLoop fuel (offset / codesLen)
    else []

def encodeOffset (offset : ℕ) : List Char :=
  if offset = 0 then ['0'] else encodeLoop offset offset

def decodeOffset : List Char → Option ℕ
  | [] => some 0
  | ch :: encoded => do
    let res ← decodeOffset encoded
    let mod ← codes.idxOf? ch
    return res * codesLen + mod

/-! ## Lines -/

def lines : Bytes → List Bytes
  | [] => []
  | c :: cs =>
    if c = newline then [] :: lines cs
    else
      match lines cs with
      | [] => [[c]]
      | line :: rest => (c :: line) :: rest

def dropCR (line : Bytes) : Bytes :=
  if line.getLast? = some carriageReturn then line.dropLast else line

def maxTokenSize : ℕ := 1024 * 1024

/-! ## Reading events -/

section Reading

variable {E : Type}

structure Entry (E : Type) where
  event : E
  offset : ℕ
  pos : ℕ

def Entry.id (e : Entry E) : List Char := encodeOffset e.offset

def readLoop (parse : Bytes → Option E) (filter : Bytes → Bool) :
    ℕ → ℕ → List Bytes → List (Entry E)
  | _, _, [] => []
  | pos, offset, line :: rest =>
    if line.length + 1 > maxTokenSize then []
    else
      let token := dropCR line
      let next := readLoop parse filter (pos + (line.length + 1)) (offset + (token.length + 1))
        rest
      match if filter token then parse token else none with
      | some event => ⟨event, offset, pos⟩ :: next
      | none => next

def eventReader (parse : Bytes → Option E) (filter : Bytes → Bool) (file : Bytes)
    (initOffset : ℕ) : List (Entry E) :=
  readLoop parse filter initOffset initOffset (lines (file.drop initOffset))

end Reading

/-! ## Searching from the end -/

def scanBack (buf : Bytes) (filter : Bytes → Bool) (wanted : ℤ) : ℕ → ℕ → ℕ → Except ℕ (ℕ × ℕ)
  | 0, lastMatch, found => .ok (lastMatch, found)
  | i + 1, lastMatch, found =>
    if buf.getD i 0 = newline then
      if filter ((buf.take lastMatch).drop (i + 1)) then
        if ((found + 1 : ℕ) : ℤ) = wanted then .error i
        else scanBack buf filter wanted i i (found + 1)
      else scanBack buf filter wanted i i found
    else scanBack buf filter wanted i lastMatch found

variable {wanted : ℤ} {found : ℕ} {file : Bytes} {filter : Bytes → Bool}

theorem scanBack_lastMatch_le {buf : Bytes} {i lastMatch : ℕ}
    {r : ℕ × ℕ} (hi : i ≤ lastMatch) (h : scanBack buf filter wanted i lastMatch found = .ok r) :
    r.1 ≤ lastMatch := by
  induction i generalizing lastMatch found with
  | zero =>
    obtain rfl := Except.ok.inj h
    exact Nat.le_refl lastMatch
  | succ i ih =>
    rw [scanBack] at h
    split_ifs at h
    · exact Nat.le_trans (ih (Nat.le_refl i) h) (Nat.le_of_succ_le hi)
    · exact Nat.le_trans (ih (Nat.le_refl i) h) (Nat.le_of_succ_le hi)
    · exact ih (Nat.le_of_succ_le hi) h

def bufAt (cap : ℕ) (file : Bytes) (offset : ℕ) : Bytes := (file.drop (offset - cap)).take cap

def searchBack (cap : ℕ) (filter : Bytes → Bool) (wanted : ℤ) (file : Bytes)
    (offset found : ℕ) : Option ℕ :=
  match h : scanBack (bufAt cap file offset) filter wanted ((bufAt cap file offset).length - 2)
      ((bufAt cap file offset).length - 1) found with
  | .error i => some (offset - cap + i + 1)
  | .ok r =>
    if _hlast : (bufAt cap file offset).length ≠ cap ∨ offset < cap ∨ cap = 0 then none
    else searchBack cap filter wanted file (offset - cap + r.1) r.2
termination_by offset
decreasing_by
  have hle := scanBack_lastMatch_le (by omega) h
  omega

def findReverseLineMatchOffset (filter : Bytes → Bool) (wanted : ℤ) (file : Bytes) : Option ℕ :=
  searchBack 102400 filter wanted file file.length 0

/-! ## The command -/

inductive Mode where
  | all
  | last (n : ℤ)

section Command

variable {E : Type} (parse : Bytes → Option E)

def startOffset (mode : Mode) (filter : Bytes → Bool) (file : Bytes) (offset : ℕ) : ℕ :=
  match mode with
  | .all => offset
  | .last n =>
    if offset = 0 then (findReverseLineMatchOffset filter n file).getD 0 else offset

def listEvents (mode : Mode) (filter : Bytes → Bool) (file : Bytes) : List (Entry E) :=
  eventReader parse filter file (startOffset mode filter file 0)

def selectEvent (lastN : ℤ) (file : Bytes) (arg : List Char) : Option (Entry E) :=
  (decodeOffset arg).bind fun offset =>
    (eventReader parse (fun _ => true) file
      (startOffset (.last lastN) (fun _ => true) file offset)).head?

end Command

structure EventsFile where
  lines : List Bytes
  clean : ∀ line ∈ lines, newline ∉ line
  short : ∀ line ∈ lines, line.length + 1 ≤ maxTokenSize

def unlines (ls : List Bytes) : Bytes := (ls.map (· ++ [newline])).flatten

def EventsFile.bytes (file : EventsFile) : Bytes := unlines file.lines

/-! ## Ids are read back -/

theorem idxOf_codes {d : ℕ} (hd : d < codesLen) : codes.idxOf? (codes.getD d '0') = some d := by
  have hall : ∀ i : Fin 62, codes.idxOf? (codes.getD i.1 '0') = some i.1 := by decide +kernel
  exact hall ⟨d, hd⟩

theorem decodeOffset_encodeLoop {fuel offset : ℕ} (h : offset ≤ fuel) :
    decodeOffset (encodeLoop fuel offset) = some offset := by
  induction fuel generalizing offset with
  | zero =>
    rw [Nat.le_zero.1 h]
    rfl
  | succ fuel ih =>
    rw [encodeLoop]
    by_cases hpos : offset > 0
    · have hdiv : offset / codesLen < offset := Nat.div_lt_self hpos (by decide)
      rw [if_pos hpos, decodeOffset, ih (by omega), idxOf_codes (Nat.mod_lt _ (by decide))]
      exact congrArg some (Nat.div_add_mod' offset codesLen)
    · rw [if_neg hpos, Nat.eq_zero_of_not_pos hpos]
      rfl

/-- **An id is read back.** -/
theorem decodeOffset_encodeOffset (offset : ℕ) :
    decodeOffset (encodeOffset offset) = some offset := by
  rw [encodeOffset]
  split_ifs with h
  · rw [h]
    decide +kernel
  · exact decodeOffset_encodeLoop (Nat.le_refl offset)

theorem decodeOffset_cons {ch : Char} {rest : List Char} {n : ℕ}
    (h : decodeOffset (ch :: rest) = some n) : ∃ res mod, decodeOffset rest = some res ∧
      codes.idxOf? ch = some mod ∧ n = res * codesLen + mod := by
  obtain ⟨res, hres, h⟩ := bind_eq_some_iff.1 h
  obtain ⟨mod, hmod, h⟩ := bind_eq_some_iff.1 h
  exact ⟨res, mod, hres, hmod, (some.inj h).symm⟩

theorem decodeOffset_append {s t : List Char} {n : ℕ} (h : decodeOffset (s ++ t) = some n) :
    ∃ r ≤ n, decodeOffset t = some r := by
  induction s generalizing n with
  | nil => exact ⟨n, Nat.le_refl n, h⟩
  | cons ch s ih =>
    obtain ⟨res, mod, hres, -, rfl⟩ := decodeOffset_cons h
    obtain ⟨r, hr, ht⟩ := ih hres
    refine ⟨r, ?_, ht⟩
    rw [codesLen]
    omega

/-- **Offsets are read back**, no value of the loop is beyond `int64`, and no two offsets have
one encoding. -/
theorem offset_coding (x : ℕ) (hx : x < 2 ^ 63) :
    decodeOffset (encodeOffset x) = some x ∧
      (∀ ch rest, ch :: rest <:+ encodeOffset x → ∃ res mod, decodeOffset rest = some res ∧
        codes.idxOf? ch = some mod ∧ res * codesLen + mod < 2 ^ 63) ∧
      ∀ y < 2 ^ 63, encodeOffset y = encodeOffset x → y = x := by
  have hback := decodeOffset_encodeOffset x
  refine ⟨hback, ?_, fun y _ hy => ?_⟩
  · rintro ch rest ⟨s, hs⟩
    rw [← hs] at hback
    obtain ⟨r, hr, hdecode⟩ := decodeOffset_append hback
    obtain ⟨res, mod, hres, hmod, rfl⟩ := decodeOffset_cons hdecode
    exact ⟨res, mod, hres, hmod, Nat.lt_of_le_of_lt hr hx⟩
  · rw [← hy, decodeOffset_encodeOffset] at hback
    exact some.inj hback

theorem offset_coding_hundred : decodeOffset (encodeOffset 100) = some 100 :=
  (offset_coding 100 (by decide)).1

/-! ## Complete lines -/

theorem lines_ne_nil {c : UInt8} {cs : Bytes} : lines (c :: cs) ≠ [] := by
  rw [lines]
  split_ifs
  · exact cons_ne_nil _ _
  · split <;> exact cons_ne_nil _ _

theorem lines_append {a : Bytes} (h : Complete newline a) (b : Bytes) :
    lines (a ++ b) = lines a ++ lines b := by
  induction a with
  | nil => rfl
  | cons c cs ih =>
    rw [cons_append, lines, lines, ih h.tail]
    split_ifs with hc
    · rw [cons_append]
    · cases cs with
      | nil => exact absurd rfl (h.ne_nil hc)
      | cons c' cs =>
        cases hl : lines (c' :: cs) with
        | nil => exact absurd hl lines_ne_nil
        | cons line rest => rfl

theorem unlines_lines {text : Bytes} (h : Complete newline text) : unlines (lines text) = text := by
  induction text with
  | nil => rfl
  | cons c cs ih =>
    have hih := ih h.tail
    rw [lines]
    split_ifs with hc
    · rw [unlines, map_cons, flatten_cons, ← unlines, hih, hc]
      rfl
    · cases hl : lines cs with
      | nil =>
        cases cs with
        | nil => exact absurd (h c rfl) hc
        | cons c' cs => exact absurd hl lines_ne_nil
      | cons line rest =>
        rw [hl] at hih
        rw [← hih]
        rfl

theorem lines_line {line : Bytes} (h : newline ∉ line) : lines (line ++ [newline]) = [line] := by
  induction line with
  | nil => rfl
  | cons c cs ih =>
    rw [mem_cons, not_or] at h
    rw [cons_append, lines, if_neg (Ne.symm h.1), ih h.2]

theorem complete_unlines (ls : List Bytes) : Complete newline (unlines ls) := by
  induction ls with
  | nil => exact fun c hc => by cases hc
  | cons line ls ih =>
    intro c hc
    rw [unlines, map_cons, flatten_cons, ← unlines] at hc
    by_cases hnil : unlines ls = []
    · rw [hnil, append_nil, getLast?_concat] at hc
      exact (some.inj hc).symm
    · rw [getLast?_append_of_ne_nil _ hnil] at hc
      exact ih c hc

theorem lines_unlines {ls : List Bytes} (h : ∀ line ∈ ls, newline ∉ line) :
    lines (unlines ls) = ls := by
  induction ls with
  | nil => rfl
  | cons line ls ih =>
    rw [forall_mem_cons] at h
    have hline : Complete newline (line ++ [newline]) := by
      intro c hc
      rw [getLast?_concat] at hc
      exact (some.inj hc).symm
    rw [unlines, map_cons, flatten_cons, ← unlines, lines_append hline, lines_line h.1, ih h.2]
    rfl

def size (ls : List Bytes) : ℕ := (ls.map fun line => line.length + 1).sum

theorem size_append (as bs : List Bytes) : size (as ++ bs) = size as + size bs := by
  simp [size]

theorem size_cons (l : Bytes) (ls : List Bytes) : size (l :: ls) = l.length + 1 + size ls := by
  simp [size]

theorem length_unlines (ls : List Bytes) : (unlines ls).length = size ls := by
  induction ls with
  | nil => rfl
  | cons line ls ih =>
    rw [unlines, map_cons, flatten_cons, ← unlines, length_append, length_append, ih]
    rfl

theorem unlines_append (as bs : List Bytes) : unlines (as ++ bs) = unlines as ++ unlines bs := by
  rw [unlines, map_append, flatten_append, ← unlines, ← unlines]

theorem length_lines_drop (text : Bytes) (n : ℕ) :
    ∀ line ∈ lines (text.drop n), ∃ whole ∈ lines text, line.length ≤ whole.length := by
  have hone : ∀ (c : UInt8) (cs : Bytes), ∀ line ∈ lines cs,
      ∃ whole ∈ lines (c :: cs), line.length ≤ whole.length := by
    intro c cs line hline
    rw [lines]
    split_ifs with hc
    · exact ⟨line, mem_cons_of_mem _ hline, Nat.le_refl _⟩
    · cases hl : lines cs with
      | nil =>
        rw [hl] at hline
        cases hline
      | cons first rest =>
        rw [hl] at hline
        rcases mem_cons.1 hline with rfl | hrest
        · exact ⟨c :: line, mem_cons_self, Nat.le_succ _⟩
        · exact ⟨line, mem_cons_of_mem _ hrest, Nat.le_refl _⟩
  induction n generalizing text with
  | zero => exact fun line hline => ⟨line, hline, Nat.le_refl _⟩
  | succ n ih =>
    cases text with
    | nil => exact fun line hline => ⟨line, hline, Nat.le_refl _⟩
    | cons c cs =>
      intro line hline
      obtain ⟨whole, hwhole, hle⟩ := ih cs line hline
      obtain ⟨whole', hwhole', hle'⟩ := hone c cs whole hwhole
      exact ⟨whole', hwhole', Nat.le_trans hle hle'⟩

/-! ## What is read -/

section Reading

variable {E : Type} {parse : Bytes → Option E} {filter : Bytes → Bool}

def counted (ls : List Bytes) : ℕ := (ls.map fun line => (dropCR line).length + 1).sum

def Short (ls : List Bytes) : Prop := ∀ line ∈ ls, line.length + 1 ≤ maxTokenSize

def endsWithReturn (line : Bytes) : Bool := line.getLast? = some carriageReturn

/-- The length of a line that ends with a carriage return is counted one byte short. -/
theorem counted_add (ls : List Bytes) : counted ls + ls.countP endsWithReturn = size ls := by
  induction ls with
  | nil => rfl
  | cons line ls ih =>
    have hline : (dropCR line).length + (if endsWithReturn line then 1 else 0) = line.length := by
      unfold dropCR endsWithReturn
      by_cases hcr : line.getLast? = some carriageReturn
      · have hne : line ≠ [] := by
          rintro rfl
          cases hcr
        have hpos := length_pos_of_ne_nil hne
        rw [if_pos hcr, if_pos (decide_eq_true hcr), length_dropLast]
        omega
      · rw [if_neg hcr, if_neg (by simpa using hcr), Nat.add_zero]
    rw [counted, size, map_cons, map_cons, sum_cons, sum_cons, ← counted, ← size, countP_cons]
    omega

theorem readLoop_cons {line : Bytes} (hshort : line.length + 1 ≤ maxTokenSize) (pos offset : ℕ)
    (rest : List Bytes) : readLoop parse filter pos offset (line :: rest) =
      ((if filter (dropCR line) then parse (dropCR line) else none).toList.map
          fun event => ⟨event, offset, pos⟩) ++
        readLoop parse filter (pos + (line.length + 1)) (offset + ((dropCR line).length + 1))
          rest := by
  rw [readLoop, if_neg (Nat.not_lt.2 hshort)]
  dsimp only
  cases (if filter (dropCR line) then parse (dropCR line) else none) <;> rfl

theorem readLoop_append {as : List Bytes} (hshort : Short as) (pos offset : ℕ) (bs : List Bytes) :
    readLoop parse filter pos offset (as ++ bs) = readLoop parse filter pos offset as ++
        readLoop parse filter (pos + size as) (offset + counted as) bs := by
  induction as generalizing pos offset with
  | nil => rfl
  | cons line as ih =>
    rw [Short, forall_mem_cons] at hshort
    rw [cons_append, readLoop_cons hshort.1, readLoop_cons hshort.1, ih hshort.2, append_assoc]
    simp [size, counted, Nat.add_assoc]

theorem mem_readLoop {ls : List Bytes} (hshort : Short ls) {pos offset : ℕ} {e : Entry E}
    (he : e ∈ readLoop parse filter pos offset ls) :
    ∃ as line bs, ls = as ++ line :: bs ∧ e.pos = pos + size as ∧
      e.offset = offset + counted as ∧ parse (dropCR line) = some e.event := by
  induction ls generalizing pos offset with
  | nil => cases he
  | cons line ls ih =>
    rw [Short, forall_mem_cons] at hshort
    rw [readLoop_cons hshort.1, mem_append] at he
    rcases he with he | he
    · obtain ⟨event, hevent, rfl⟩ := mem_map.1 he
      refine ⟨[], line, ls, rfl, rfl, rfl, ?_⟩
      rw [mem_toList] at hevent
      split_ifs at hevent
      exact hevent
    · obtain ⟨as, line', bs, rfl, hpos, hoffset, hparse⟩ := ih hshort.2 he
      refine ⟨line :: as, line', bs, rfl, ?_, ?_, hparse⟩
      · rw [hpos, size, size, map_cons, sum_cons, Nat.add_assoc]
      · rw [hoffset, counted, counted, map_cons, sum_cons, Nat.add_assoc]

end Reading

/-! ## Where reading begins -/

theorem scanBack_error {buf : Bytes} {i lastMatch j : ℕ}
    (h : scanBack buf filter wanted i lastMatch found = .error j) :
    buf.getD j 0 = newline ∧ (∃ line, filter line = true) ∧ 0 < wanted := by
  induction i generalizing lastMatch found with
  | zero => cases h
  | succ i ih =>
    rw [scanBack] at h
    split_ifs at h with hnewline hmatch hwanted
    · rw [← Except.error.inj h]
      exact ⟨hnewline, ⟨_, hmatch⟩, by omega⟩
    · exact ih h
    · exact ih h
    · exact ih h

theorem complete_take {k : ℕ} (h : file.getD k 0 = newline) :
    Complete newline (file.take (k + 1)) := by
  intro c hc
  by_cases hk : k < file.length
  · rw [take_add_one, getElem?_eq_getElem hk, toList_some, getLast?_concat] at hc
    rw [getD_eq_getElem _ _ hk] at h
    rw [← h]
    exact (some.inj hc).symm
  · rw [getD_eq_default _ _ (Nat.le_of_not_lt hk)] at h
    exact absurd h (by decide)

theorem searchBack_some {cap : ℕ} {offset result : ℕ}
    (h : searchBack cap filter wanted file offset found = some result) :
    (0 < result ∧ Complete newline (file.take result)) ∧ (∃ line, filter line = true) ∧
      0 < wanted := by
  induction offset using Nat.strongRecOn generalizing found with
  | ind offset ih =>
    rw [searchBack] at h
    split at h
    · next i hi =>
      rw [← some.inj h]
      obtain ⟨hbuf, hmatch⟩ := scanBack_error hi
      refine ⟨⟨Nat.succ_pos _, complete_take ?_⟩, hmatch⟩
      rw [bufAt] at hbuf
      -- the byte in the buffer is that of the file
      rw [getD_eq_getElem?_getD, getElem?_take] at hbuf
      split_ifs at hbuf with hcap
      · rwa [getElem?_drop, ← getD_eq_getElem?_getD] at hbuf
      · exact absurd hbuf (by decide)
    · next r hr =>
      split_ifs at h with hlast
      have hle := scanBack_lastMatch_le (by omega) hr
      exact ih _ (by omega) h

theorem complete_startOffset (mode : Mode) (filter : Bytes → Bool) (file : Bytes) :
    Complete newline (file.take (startOffset mode filter file 0)) := by
  have hnil : Complete newline (file.take 0) := fun c hc => by cases hc
  cases mode with
  | all => exact hnil
  | last n =>
    rw [startOffset, if_pos rfl]
    cases hfound : findReverseLineMatchOffset filter n file with
    | none => exact hnil
    | some result => exact (searchBack_some hfound).1.2

/-! ## The round trip -/

section RoundTrip

variable {E : Type} {parse : Bytes → Option E}

theorem EventsFile.complete (file : EventsFile) : Complete newline file.bytes :=
  complete_unlines file.lines

theorem EventsFile.short_drop (file : EventsFile) (n : ℕ) :
    Short (Events.lines (file.bytes.drop n)) := by
  intro line hline
  obtain ⟨whole, hwhole, hle⟩ := length_lines_drop file.bytes n line hline
  rw [EventsFile.bytes, lines_unlines file.clean] at hwhole
  have hshort := file.short whole hwhole
  omega

variable {file : EventsFile} {pos offset : ℕ}

/-- **Where a listed event is**: the list begins behind the lines `ps`, and behind the lines
`as` of the list comes the line of the event. -/
theorem mem_listEvents {mode : Mode} {filter : Bytes → Bool} {e : Entry E}
    (he : e ∈ listEvents parse mode filter file.bytes) :
    ∃ ps as line bs, file.lines = ps ++ as ++ line :: bs ∧ e.pos = size (ps ++ as) ∧
      e.offset = size ps + counted as ∧ parse (dropCR line) = some e.event := by
  set start := startOffset mode filter file.bytes 0
  have hbegin : Complete newline (file.bytes.take start) :=
    complete_startOffset mode filter file.bytes
  obtain ⟨as, line, bs, hlines, hpos, hoffset, hparse⟩ := mem_readLoop (file.short_drop start) he
  have hstart : start ≤ file.bytes.length := by
    by_contra hge
    rw [drop_eq_nil_of_le (Nat.le_of_not_le hge)] at hlines
    cases as <;> cases hlines
  have hsize : size (Events.lines (file.bytes.take start)) = start := by
    rw [← length_unlines, unlines_lines hbegin, length_take, Nat.min_eq_left hstart]
  refine ⟨Events.lines (file.bytes.take start), as, line, bs, ?_, ?_, ?_, hparse⟩
  · rw [append_assoc, ← hlines, ← lines_append hbegin, take_append_drop]
    exact (lines_unlines file.clean).symm
  · rw [hpos, size_append, hsize]
  · rw [hoffset, hsize]

def Selects (selected : Option (Entry E)) (e : Entry E) : Prop :=
  ∃ e', selected = some e' ∧ e'.pos = e.pos ∧ e'.event = e.event

theorem le_pos_of_mem {filter : Bytes → Bool} {start : ℕ} {e : Entry E}
    (he : e ∈ eventReader parse filter file.bytes start) : start ≤ e.pos := by
  obtain ⟨as, -, -, -, hpos, -, -⟩ := mem_readLoop (file.short_drop start) he
  omega

theorem head_readLoop {line : Bytes} {bs : List Bytes} {event : E}
    (hshort : line.length + 1 ≤ maxTokenSize) (hparse : parse (dropCR line) = some event)
    (pos offset : ℕ) : (readLoop parse (fun _ => true) pos offset (line :: bs)).head? =
      some ⟨event, offset, pos⟩ := by
  rw [readLoop_cons hshort, if_pos rfl, hparse]
  rfl

theorem EventsFile.drop_eq_append (file : EventsFile) (hle : offset ≤ pos)
    (hlen : pos ≤ file.bytes.length) :
    file.bytes.drop offset = (file.bytes.take pos).drop offset ++ file.bytes.drop pos := by
  conv_lhs => rw [← take_append_drop pos file.bytes]
  rw [drop_append_of_le_length (by rw [length_take]; omega)]

theorem EventsFile.short_between (file : EventsFile) (hle : offset ≤ pos)
    (hlen : pos ≤ file.bytes.length) (hcomplete : Complete newline (file.bytes.take pos)) :
    Short (Events.lines ((file.bytes.take pos).drop offset)) := by
  intro line hline
  refine file.short_drop offset line ?_
  rw [file.drop_eq_append hle hlen, lines_append (hcomplete.drop offset)]
  exact mem_append_left _ hline

theorem EventsFile.size_between (file : EventsFile) (hle : offset ≤ pos)
    (hlen : pos ≤ file.bytes.length) (hcomplete : Complete newline (file.bytes.take pos)) :
    offset + size (Events.lines ((file.bytes.take pos).drop offset)) = pos := by
  rw [← length_unlines, unlines_lines (hcomplete.drop offset), length_drop, length_take]
  omega

theorem eventReader_split (hle : offset ≤ pos) (hlen : pos ≤ file.bytes.length)
    (hcomplete : Complete newline (file.bytes.take pos)) :
    eventReader parse (fun _ => true) file.bytes offset =
      eventReader parse (fun _ => true) (file.bytes.take pos) offset ++
        readLoop parse (fun _ => true) pos
          (offset + counted (Events.lines ((file.bytes.take pos).drop offset)))
          (Events.lines (file.bytes.drop pos)) := by
  rw [eventReader, file.drop_eq_append hle hlen, lines_append (hcomplete.drop offset),
    readLoop_append (file.short_between hle hlen hcomplete),
    file.size_between hle hlen hcomplete]
  rfl

theorem readLoop_eq_nil {ls : List Bytes} (hshort : Short ls) (pos offset : ℕ) :
    readLoop parse (fun _ => true) pos offset ls = [] ↔ ∀ l ∈ ls, parse (dropCR l) = none := by
  induction ls generalizing pos offset with
  | nil => simp [readLoop]
  | cons l ls ih =>
    rw [Short, forall_mem_cons] at hshort
    rw [readLoop_cons hshort.1, if_pos rfl, append_eq_nil_iff, ih hshort.2, forall_mem_cons]
    simp

/-- **The id of an event**, given back: from its offset on, no event may come before it; an
offset of 0 is searched from the end instead, and nothing may be found. -/
theorem selects_iff {e : Entry E} {ps as bs : List Bytes} {line : Bytes}
    (hlines : file.lines = ps ++ as ++ line :: bs) (hpos : e.pos = size (ps ++ as))
    (hoffset : e.offset = size ps + counted as) (hparse : parse (dropCR line) = some e.event)
    (lastN : ℤ) :
    Selects (selectEvent parse lastN file.bytes e.id) e ↔
      if ps ++ as = [] then findReverseLineMatchOffset (fun _ => true) lastN file.bytes = none
      else ∀ l ∈ Events.lines ((unlines (ps ++ as)).drop
        (size (ps ++ as) - as.countP endsWithReturn)), parse (dropCR l) = none := by
  have hbytes : file.bytes = unlines (ps ++ as) ++ unlines (line :: bs) := by
    rw [← unlines_append, ← hlines]
    rfl
  have hclean : ∀ l ∈ line :: bs, newline ∉ l :=
    fun l hl => file.clean l (by rw [hlines]; exact mem_append_right _ hl)
  have htake : file.bytes.take e.pos = unlines (ps ++ as) := by
    rw [hpos, hbytes, ← length_unlines, take_left]
  have hdrop : Events.lines (file.bytes.drop e.pos) = line :: bs := by
    rw [hpos, hbytes, ← length_unlines, drop_left, lines_unlines hclean]
  have hcomplete : Complete newline (file.bytes.take e.pos) := htake ▸ complete_unlines _
  have hlen : e.pos ≤ file.bytes.length := by
    rw [hbytes, hpos, length_append, length_unlines]
    exact Nat.le_add_right _ _
  have hshort : line.length + 1 ≤ maxTokenSize :=
    file.short line (by rw [hlines]; exact mem_append_right _ mem_cons_self)
  have hcount := counted_add as
  have hsize := size_append ps as
  have hle : e.offset ≤ e.pos := by omega
  have hshown : e.offset = size (ps ++ as) - as.countP endsWithReturn := by omega
  rw [selectEvent, Entry.id, decodeOffset_encodeOffset, bind_some, startOffset]
  by_cases hnil : ps ++ as = []
  · obtain ⟨rfl, rfl⟩ := append_eq_nil_iff.mp hnil
    have h0 : e.offset = 0 := hoffset
    have hpos0 : e.pos = 0 := hpos
    rw [if_pos h0, if_pos hnil]
    cases hfound : findReverseLineMatchOffset (fun _ => true) lastN file.bytes with
    | none =>
      refine ⟨fun _ => rfl, fun _ => ⟨⟨e.event, 0, 0⟩, ?_, hpos0.symm, rfl⟩⟩
      rw [hpos0] at hdrop
      rw [getD_none, eventReader, hdrop]
      exact head_readLoop hshort hparse 0 0
    | some start =>
      -- what is found is not the first line
      refine ⟨fun ⟨e', he', hsame, _⟩ => ?_, fun h => by cases h⟩
      have hstart := (searchBack_some hfound).1.1
      have hbehind := le_pos_of_mem (mem_of_mem_head? he')
      rw [getD_some] at hbehind
      omega
  · have h0 : e.offset ≠ 0 := by
      intro h0
      refine hnil (append_eq_nil_iff.mpr ⟨?_, ?_⟩)
      · cases ps with
        | nil => rfl
        | cons p ps =>
          rw [size_cons] at hoffset
          omega
      · cases as with
        | nil => rfl
        | cons a as =>
          rw [counted, map_cons, sum_cons] at hoffset
          omega
    rw [if_neg h0, if_neg hnil, eventReader_split hle hlen hcomplete, hdrop, ← htake, ← hshown,
      ← readLoop_eq_nil (file.short_between hle hlen hcomplete) e.offset e.offset]
    constructor
    · rintro ⟨e', he', hsame, -⟩
      by_contra hne
      -- the first event read is one of an earlier line
      rw [eventReader, head?_append_of_ne_nil _ hne] at he'
      obtain ⟨xs, l, cs, hmid, hbefore, -, -⟩ :=
        mem_readLoop (file.short_between hle hlen hcomplete) (mem_of_mem_head? he')
      have hbetween := file.size_between hle hlen hcomplete
      rw [hmid, size_append, size_cons] at hbetween
      omega
    · intro hnone
      rw [eventReader, hnone, nil_append, head_readLoop hshort hparse]
      exact ⟨_, rfl, rfl, rfl⟩

end RoundTrip

/-! ## Logs -/

def matchAny (fs : List (Bytes → Bool)) (line : Bytes) : Bool := fs.any (· line)

/-- The lines that are printed. -/
def logsCmd (lastN : ℤ) (file : Bytes) : List Bytes :=
  (eventReader some (fun _ => true) file
    ((findReverseLineMatchOffset (matchAny []) lastN file).getD 0)).map (·.event)

theorem readLoop_all {ls : List Bytes} (hshort : Short ls) (pos offset : ℕ) :
    (readLoop some (fun _ => true) pos offset ls).map (·.event) = ls.map dropCR := by
  induction ls generalizing pos offset with
  | nil => rfl
  | cons line ls ih =>
    rw [Short, forall_mem_cons] at hshort
    rw [readLoop, if_neg (Nat.not_lt.2 hshort.1)]
    exact congrArg (_ :: ·) (ih hshort.2 _ _)

theorem dropCR_eq_self {line : Bytes} :
    dropCR line = line ↔ line.getLast? ≠ some carriageReturn := by
  unfold dropCR
  split_ifs with hcr
  · refine iff_of_false (fun h => ?_) (not_not.mpr hcr)
    have hlen := congrArg length h
    rw [length_dropLast] at hlen
    cases line with
    | nil => cases hcr
    | cons c line => simp at hlen
  · exact iff_of_true rfl hcr

/-- **All lines are printed**, not the last ones: no line matches one of no functions. -/
theorem logs_last (n : ℕ) (file : Bytes) (hshort : Short (lines file)) :
    logsCmd n file = (lines file).map dropCR ∧
      (logsCmd n file = (lines file).drop ((lines file).length - n) ↔ (lines file).length ≤ n ∧
        ∀ line ∈ lines file, line.getLast? ≠ some carriageReturn) := by
  have hnone : findReverseLineMatchOffset (matchAny []) n file = none := by
    by_contra hfound
    obtain ⟨result, hresult⟩ := ne_none_iff_exists'.1 hfound
    obtain ⟨-, ⟨line, hmatch⟩, -⟩ := searchBack_some hresult
    cases hmatch
  have hall : logsCmd n file = (lines file).map dropCR := by
    rw [logsCmd, hnone, getD_none, eventReader, drop_zero, readLoop_all hshort]
  refine ⟨hall, ?_⟩
  rw [hall]
  constructor
  · intro h
    have hlen := congrArg length h
    rw [length_map, length_drop] at hlen
    have hn : (lines file).length ≤ n := by
      by_contra hn
      omega
    refine ⟨hn, fun line hline => dropCR_eq_self.mp ?_⟩
    rw [Nat.sub_eq_zero_of_le hn, drop_zero] at h
    exact map_eq_map_iff.mp (h.trans (map_id _).symm) line hline
  · rintro ⟨hn, hcr⟩
    rw [Nat.sub_eq_zero_of_le hn, drop_zero]
    exact (map_congr_left fun line hline => dropCR_eq_self.mpr (hcr line hline)).trans (map_id _)

theorem logs_last_one : logsCmd 1 [0x61, newline] = [[0x61]] :=
  (logs_last 1 [0x61, newline] (forall_mem_singleton.2 (by decide))).1

theorem logs_last_two : logsCmd 1 [0x61, newline, 0x62, newline] = [[0x61], [0x62]] := by
  decide +kernel

/-! ## The search in the last buffer -/

variable {filter : Bytes → Bool} {as ls : List Bytes} {l rest : Bytes} {n : ℕ}

/-- What a scan over these lines may result in: the first of them is not tested. -/
def Counts (filter : Bytes → Bool) (n found : ℕ) (ls : List Bytes) : Except ℕ (ℕ × ℕ) → Prop
  | .error i => ∃ as bs, ls = as ++ bs ∧ i + 1 = size as ∧ found + bs.countP filter = n
  | .ok _ => found + ls.tail.countP filter < n

theorem Counts.snoc {r : Except ℕ (ℕ × ℕ)} (hne : ls ≠ [])
    (h : Counts filter n (found + [l].countP filter) ls r) :
    Counts filter n found (ls ++ [l]) r := by
  cases r with
  | error i =>
    obtain ⟨as, bs, rfl, hi, hcount⟩ := h
    refine ⟨as, bs ++ [l], append_assoc .., hi, ?_⟩
    rw [countP_append]
    omega
  | ok x =>
    rw [Counts] at h ⊢
    rw [tail_append_of_ne_nil hne, countP_append]
    omega

theorem scanBack_skip (hl : newline ∉ l) {k : ℕ} (hk : k ≤ l.length) (lastMatch : ℕ) :
    scanBack (unlines as ++ (l ++ rest)) filter wanted (size as + k) lastMatch found =
      scanBack (unlines as ++ (l ++ rest)) filter wanted (size as) lastMatch found := by
  induction k with
  | zero => rfl
  | succ k ih =>
    have hget : (unlines as ++ (l ++ rest)).getD (size as + k) 0 = l.get ⟨k, hk⟩ := by
      rw [← length_unlines, getD_append_right _ _ _ _ (Nat.le_add_right _ _),
        Nat.add_sub_cancel_left, getD_append _ _ _ _ hk, getD_eq_getElem _ _ hk]
      rfl
    rw [← Nat.add_assoc, scanBack, if_neg]
    · exact ih (Nat.le_of_succ_le hk)
    · rw [hget]
      exact fun h => hl (h ▸ get_mem l ⟨k, hk⟩)

theorem scanBack_lines (hclean : ∀ line ∈ as, newline ∉ line) (hfound : found < n) :
    Counts filter n found (as ++ [l]) (scanBack (unlines as ++ (l ++ rest)) filter n (size as)
      (size as + l.length) found) := by
  induction as using reverseRecOn generalizing l found rest with
  | nil => exact hfound
  | append_singleton as l' ih =>
    have hsize : size (as ++ [l']) = size as + l'.length + 1 := by
      simp [size, Nat.add_assoc]
    have htext : unlines (as ++ [l']) ++ (l ++ rest) =
        unlines as ++ (l' ++ newline :: (l ++ rest)) := by
      simp [unlines]
    have hclean' : ∀ line ∈ as, newline ∉ line :=
      fun line hline => hclean line (mem_append_left _ hline)
    have hne : as ++ [l'] ≠ [] := concat_ne_nil l' as
    have hnewline : (unlines as ++ (l' ++ newline :: (l ++ rest))).getD (size as + l'.length) 0 =
        newline := by
      rw [← length_unlines, ← append_assoc, ← length_append,
        getD_append_right _ _ _ _ (Nat.le_refl _), Nat.sub_self]
      rfl
    have hline : ((unlines (as ++ [l']) ++ (l ++ rest)).take (size (as ++ [l']) + l.length)).drop
        (size (as ++ [l'])) = l := by
      rw [← length_unlines, take_length_add_append, take_left, drop_left]
    have hnext : ∀ found' < n, Counts filter n found' (as ++ [l'])
        (scanBack (unlines as ++ (l' ++ newline :: (l ++ rest))) filter n (size as + l'.length)
          (size as + l'.length) found') := by
      intro found' hlt
      rw [scanBack_skip (hclean l' (mem_append_right _ mem_cons_self)) (Nat.le_refl _)]
      exact ih hclean' hlt
    rw [hsize, htext] at hline
    rw [hsize, htext, scanBack, if_pos hnewline, hline]
    split_ifs with hmatch hlast
    · refine ⟨as ++ [l'], [l], rfl, hsize.symm, ?_⟩
      rw [countP_singleton, if_pos hmatch]
      exact Int.ofNat.inj hlast
    · refine Counts.snoc hne ?_
      rw [countP_singleton, if_pos hmatch]
      exact hnext _ (by omega)
    · refine Counts.snoc hne ?_
      rw [countP_singleton, if_neg hmatch]
      exact hnext _ hfound

/-- The offset of a line from which on `n` lines match, or none if there are no more than `n`. -/
def Located (filter : Bytes → Bool) (n : ℕ) (ls : List Bytes) : Option ℕ → Prop
  | some offset => ∃ as bs, ls = as ++ bs ∧ offset = (unlines as).length ∧ bs.countP filter = n
  | none => ls.countP filter ≤ n

/-- The scan of whole lines, of which the last is not empty. -/
theorem scanBack_counts (hn : 1 ≤ n) (hclean : ∀ line ∈ ls, newline ∉ line)
    (hlast : ls.getLast? ≠ some []) :
    Counts filter n 0 ls (scanBack (unlines ls) filter n ((unlines ls).length - 2)
      ((unlines ls).length - 1) 0) := by
  cases ls using reverseRecOn with
  | nil => exact hn
  | append_singleton as l =>
    have hpos : 0 < l.length := by
      refine length_pos_of_ne_nil ?_
      rintro rfl
      exact hlast getLast?_concat
    have htext : unlines (as ++ [l]) = unlines as ++ (l ++ [newline]) := by
      simp [unlines]
    have hlen : (unlines (as ++ [l])).length = size as + l.length + 1 := by
      rw [htext, length_append, length_unlines, length_append, length_singleton, Nat.add_assoc]
    have hend : size as + l.length + 1 - 2 = size as + (l.length - 1) := by omega
    rw [hlen, hend, htext, Nat.add_sub_cancel,
      scanBack_skip (hclean l (mem_append_right _ mem_cons_self)) (Nat.sub_le _ 1)]
    exact scanBack_lines (fun line hline => hclean line (mem_append_left _ hline)) hn

/-- The newline in front of an empty last line is not looked at: the line before it is tested
with that newline at its end. -/
theorem scanBack_empty (hn : 1 ≤ n) (hclean : ∀ line ∈ as ++ [l], newline ∉ line) :
    Counts filter n 0 (as ++ [l ++ [newline]]) (scanBack (unlines (as ++ [l] ++ [[]])) filter n
      ((unlines (as ++ [l] ++ [[]])).length - 2) ((unlines (as ++ [l] ++ [[]])).length - 1) 0) := by
  have htext : unlines (as ++ [l] ++ [[]]) = unlines as ++ (l ++ [newline, newline]) := by
    simp [unlines]
  have hmerged : unlines as ++ (l ++ [newline, newline]) =
      unlines as ++ ((l ++ [newline]) ++ [newline]) := by
    simp
  have hlen : (unlines (as ++ [l] ++ [[]])).length = size as + l.length + 2 := by
    rw [htext, length_append, length_unlines, length_append, Nat.add_assoc]
    rfl
  have hend : size as + l.length + 2 - 1 = size as + (l ++ [newline]).length := by
    simp
    omega
  rw [hlen, hend, htext, Nat.add_sub_cancel,
    scanBack_skip (hclean l (mem_append_right _ mem_cons_self)) (Nat.le_refl _), hmerged]
  exact scanBack_lines (fun line hline => hclean line (mem_append_left _ hline)) hn

/-- The last bytes of a file are the end of a line, and the lines behind it. -/
theorem drop_unlines {k : ℕ} (hk : k < (unlines ls).length) : ∃ ps l q rest,
    ls = ps ++ l :: rest ∧ q ≤ l.length ∧ k = size ps + q ∧
      (unlines ls).drop k = unlines (l.drop q :: rest) := by
  induction ls generalizing k with
  | nil => cases hk
  | cons x xs ih =>
    have htext : unlines (x :: xs) = x ++ newline :: unlines xs := by simp [unlines]
    by_cases hx : k ≤ x.length
    · refine ⟨[], x, k, xs, rfl, hx, (Nat.zero_add k).symm, ?_⟩
      rw [htext, drop_append_of_le_length hx]
      simp [unlines]
    · obtain ⟨k, rfl⟩ : ∃ k', k = x.length + 1 + k' := ⟨k - (x.length + 1), by omega⟩
      have hskip : x ++ newline :: unlines xs = (x ++ [newline]) ++ unlines xs := by simp
      have hlen : (x ++ [newline]).length = x.length + 1 := by simp
      rw [htext, hskip, length_append, hlen] at hk
      obtain ⟨ps, l, q, rest, rfl, hq, hkq, hdrop⟩ := ih (Nat.lt_of_add_lt_add_left hk)
      refine ⟨x :: ps, l, q, rest, rfl, hq, ?_, ?_⟩
      · simp only [size, map_cons, sum_cons] at hkq ⊢
        omega
      · rw [htext, hskip, ← hlen, drop_length_add_append, hdrop]

/-- **The search in the last buffer** finds the offset, or fewer than `n` of the lines behind
the first line end in it match. -/
theorem findReverseLineMatchOffset_cases (hn : 1 ≤ n) (hclean : ∀ line ∈ ls, newline ∉ line)
    (hlast : ls.getLast? ≠ some []) (hne : ls ≠ []) :
    Located filter n ls (findReverseLineMatchOffset filter n (unlines ls)) ∨
      ∃ ps l rest, ls = ps ++ l :: rest ∧ rest.countP filter < n ∧
        102400 ≤ size (l :: rest) := by
  have hpos : 0 < (unlines ls).length := by
    rw [length_unlines]
    obtain ⟨x, xs, rfl⟩ := exists_cons_of_ne_nil hne
    rw [size_cons]
    omega
  obtain ⟨ps, l, q, rest, rfl, hq, hk, hdrop⟩ :=
    @drop_unlines ls ((unlines ls).length - 102400) (by omega)
  set file := unlines (ps ++ l :: rest) with hfile
  have hsize : file.length = size ps + (l.length + 1 + size rest) := by
    rw [hfile, length_unlines, size_append, size_cons]
  have hbuf : bufAt 102400 file file.length = unlines (l.drop q :: rest) := by
    rw [bufAt, hdrop, take_of_length_le]
    rw [← hdrop, length_drop]
    omega
  have hcut : ∀ line ∈ l.drop q :: rest, newline ∉ line := by
    intro line hline
    rcases mem_cons.mp hline with rfl | hrest
    · exact fun hmem => hclean l (by simp) (mem_of_mem_drop hmem)
    · exact hclean line (by simp [hrest])
  have hend : (l.drop q :: rest).getLast? ≠ some [] := by
    cases rest with
    | nil =>
      intro hnil
      rw [getLast?_singleton, Option.some_inj] at hnil
      have hq' : q = l.length := Nat.le_antisymm hq (drop_eq_nil_iff.mp hnil)
      by_cases hl : l = []
      · exact hlast (by simp [hl])
      · have := length_pos_of_ne_nil hl
        have hnil : size [] = 0 := rfl
        rw [hnil] at hsize
        omega
    | cons x xs => simpa using hlast
  have hscan := @scanBack_counts filter _ n hn hcut hend
  rw [← hbuf] at hscan
  rw [findReverseLineMatchOffset, searchBack]
  split
  · next i hi =>
    rw [hi] at hscan
    obtain ⟨as, bs, hls, hoffset, hcount⟩ := hscan
    rw [Nat.zero_add] at hcount
    cases as with
    | nil => cases hoffset
    | cons x as =>
      obtain ⟨rfl, hrest⟩ := cons.inj hls
      have hlen : (unlines (ps ++ l :: as)).length = size ps + (l.length + 1 + size as) := by
        rw [length_unlines, size_append, size_cons]
      refine .inl ⟨ps ++ l :: as, bs, by rw [hrest, append_assoc, cons_append]; rfl, ?_, hcount⟩
      rw [size_cons, length_drop] at hoffset
      rw [hlen]
      omega
  · next r hr =>
    rw [hr, Counts, Nat.zero_add, tail_cons] at hscan
    by_cases hshort : file.length < 102400
    · left
      rw [dif_pos (.inr (.inl hshort))]
      cases ps with
      | nil =>
        rw [nil_append, Located, countP_cons]
        split <;> omega
      | cons x xs =>
        rw [size_cons] at hk
        omega
    · right
      refine ⟨ps, l, rest, rfl, hscan, ?_⟩
      rw [size_cons]
      omega

/-- Of lines behind a line, as many are behind it in the text. -/
theorem length_unlines_inj {as as' bs bs' : List Bytes} (h : as ++ bs = as' ++ bs')
    (hsize : size as = size as') : bs = bs' := by
  rcases append_eq_append_iff.mp h with ⟨cs, rfl, rfl⟩ | ⟨cs, rfl, rfl⟩
  all_goals
    cases cs with
    | nil => rfl
    | cons c cs =>
      rw [size_append, size_cons] at hsize
      omega

/-- The search in a file that ends with an empty line. -/
theorem findReverseLineMatchOffset_empty (hn : 1 ≤ n)
    (hclean : ∀ line ∈ as ++ [l], newline ∉ line)
    (hsize : (unlines (as ++ [l] ++ [[]])).length < 102400) :
    (∃ xs ys, xs ≠ [] ∧ as ++ [l ++ [newline]] = xs ++ ys ∧ ys.countP filter = n ∧
      findReverseLineMatchOffset filter n (unlines (as ++ [l] ++ [[]])) = some (size xs)) ∨
    ((as ++ [l ++ [newline]]).tail.countP filter < n ∧
      findReverseLineMatchOffset filter n (unlines (as ++ [l] ++ [[]])) = none) := by
  have hscan := @scanBack_empty filter as l n hn hclean
  generalize unlines (as ++ [l] ++ [[]]) = file at *
  have hbuf : bufAt 102400 file file.length = file := by
    rw [bufAt, Nat.sub_eq_zero_of_le (Nat.le_of_lt hsize), drop_zero,
      take_of_length_le (Nat.le_of_lt hsize)]
  rw [findReverseLineMatchOffset, searchBack]
  split
  · next i hi =>
    rw [hbuf] at hi
    rw [hi] at hscan
    obtain ⟨xs, ys, hls, hoffset, hcount⟩ := hscan
    refine .inl ⟨xs, ys, ?_, hls, (Nat.zero_add _).symm.trans hcount, ?_⟩
    · rintro rfl
      cases hoffset
    · rw [Nat.sub_eq_zero_of_le (Nat.le_of_lt hsize), Nat.zero_add, hoffset]
  · next r hr =>
    rw [hbuf] at hr
    rw [hr, Counts, Nat.zero_add] at hscan
    exact .inr ⟨hscan, dif_pos (.inr (.inl hsize))⟩

theorem findReverseLineMatchOffset_newline (filter : Bytes → Bool) (wanted : ℤ) :
    findReverseLineMatchOffset filter wanted (unlines ([] ++ [[]])) = none := by
  have hbuf : bufAt 102400 (unlines ([] ++ [[]])) (unlines ([] ++ [[]])).length = [newline] := rfl
  rw [findReverseLineMatchOffset, searchBack]
  split
  · next i hi =>
    rw [hbuf] at hi
    cases hi
  · exact dif_pos (.inr (.inl (by decide)))

/-- With an empty last line, a filter that every line passes shows whether there are more than
`n` lines. -/
theorem located_empty_iff (hn : 1 ≤ n) (hclean : ∀ line ∈ as ++ [[]], newline ∉ line)
    (hsize : (unlines (as ++ [[]])).length < 102400) :
    (∀ filter : Bytes → Bool,
      Located filter n (as ++ [[]]) (findReverseLineMatchOffset filter n (unlines (as ++ [[]])))) ↔
      (as ++ [[]]).length ≤ n := by
  cases as using reverseRecOn with
  | nil =>
    refine iff_of_true (fun filter => ?_) hn
    rw [findReverseLineMatchOffset_newline]
    exact le_trans countP_le_length hn
  | append_singleton as l =>
    have hclean' : ∀ line ∈ as ++ [l], newline ∉ line :=
      fun line hline => hclean line (mem_append_left _ hline)
    constructor
    · intro hall
      have hfound := hall fun _ => true
      rcases @findReverseLineMatchOffset_empty (fun _ => true) as l n hn hclean' hsize with
        ⟨xs, ys, hxs, hls, hcount, hoffset⟩ | ⟨-, hnone⟩
      · exfalso
        rw [hoffset] at hfound
        obtain ⟨xs', ys', hls', hsame, hcount'⟩ := hfound
        rw [countP_true] at hcount hcount'
        -- the line that is tested last stands for two
        cases ys using reverseRecOn with
        | nil =>
          rw [length_nil] at hcount
          omega
        | append_singleton ys y =>
          rw [← append_assoc] at hls
          obtain ⟨rfl, -⟩ := append_inj' hls rfl
          rw [length_unlines] at hsame
          rw [append_assoc, append_assoc] at hls'
          have hys := congrArg length (length_unlines_inj hls' hsame)
          simp only [length_append, length_singleton] at hys hcount
          omega
      · rw [hnone, Located, countP_true] at hfound
        exact hfound
    · intro hfew filter
      have hle := @countP_le_length _ filter (as ++ [l] ++ [[]])
      rcases @findReverseLineMatchOffset_empty filter as l n hn hclean' hsize with
        ⟨xs, ys, hxs, hls, hcount, -⟩ | ⟨-, hnone⟩
      · exfalso
        have hys := @countP_le_length _ filter ys
        have hlen := congrArg length hls
        have hpos := length_pos_of_ne_nil hxs
        simp only [length_append, length_singleton] at hlen hfew
        omega
      · rw [hnone, Located]
        omega

theorem located_of_last (hn : 1 ≤ n) (hclean : ∀ line ∈ ls, newline ∉ line)
    (hlast : ls.getLast? ≠ some [])
    (hcond : (unlines ls).length < 102400 ∨ ∃ xs ys, ls = xs ++ ys ∧
      (unlines ys).length < 102400 ∧ n ≤ ys.countP filter) :
    Located filter n ls (findReverseLineMatchOffset filter n (unlines ls)) := by
  by_cases hne : ls = []
  · subst hne
    rw [findReverseLineMatchOffset, searchBack]
    exact Nat.zero_le n
  rcases @findReverseLineMatchOffset_cases filter ls n hn hclean hlast hne with
    hfound | ⟨ps, l, rest, rfl, hcount, hsize⟩
  · exact hfound
  · exfalso
    rcases hcond with hsmall | ⟨xs, ys, hls, hys, hmatch⟩
    · rw [length_unlines, size_append] at hsmall
      omega
    · -- fewer bytes than a buffer are behind the first line end in it
      rw [length_unlines] at hys
      rcases append_eq_append_iff.mp hls with ⟨cs, rfl, hcs⟩ | ⟨cs, rfl, rfl⟩
      · cases cs with
        | nil =>
          rw [hcs, nil_append] at hsize
          omega
        | cons c cs =>
          have hrest : rest = cs ++ ys := (cons.inj hcs).2
          rw [hrest, countP_append] at hcount
          omega
      · rw [size_append] at hys
        omega

/-- The lines that the search tells apart. -/
def searched (ls : List Bytes) : ℕ :=
  if ls.getLast? = some [] then ls.length - 1 else ls.length

/-- **Nothing is found in a file of less than a buffer** if and only if the file has no more
than the lines that are wanted. -/
theorem findReverseLineMatchOffset_none_iff (hclean : ∀ line ∈ ls, newline ∉ line)
    (hsize : (unlines ls).length < 102400) (lastN : ℤ) :
    findReverseLineMatchOffset (fun _ => true) lastN (unlines ls) = none ↔
      lastN ≤ 0 ∨ (searched ls : ℤ) ≤ lastN := by
  by_cases hpos : 0 < lastN
  · obtain ⟨n, rfl⟩ := Int.eq_ofNat_of_zero_le hpos.le
    rw [or_iff_right (by omega), Int.ofNat_le, searched]
    have hn : 1 ≤ n := by omega
    split_ifs with hlast
    · obtain ⟨as, rfl⟩ := getLast?_eq_some_iff.mp hlast
      cases as using reverseRecOn with
      | nil => exact iff_of_true (findReverseLineMatchOffset_newline _ n) (Nat.zero_le n)
      | append_singleton as l =>
        have hclean' : ∀ line ∈ as ++ [l], newline ∉ line :=
          fun line hline => hclean line (mem_append_left _ hline)
        rcases @findReverseLineMatchOffset_empty (fun _ => true) as l n hn hclean' hsize with
          ⟨xs, ys, hxs, hls, hcount, hfound⟩ | ⟨hcount, hnone⟩
        · have hlen := congrArg length hls
          have hfront := length_pos_of_ne_nil hxs
          rw [countP_true] at hcount
          simp only [length_append, length_singleton] at hlen ⊢
          simp only [hfound, reduceCtorEq, false_iff]
          omega
        · rw [countP_true, length_tail] at hcount
          simp only [length_append, length_singleton] at hcount ⊢
          simp only [hnone, true_iff]
          omega
    · have hfound := @located_of_last (fun _ => true) ls n hn hclean hlast (.inl hsize)
      cases hresult : findReverseLineMatchOffset (fun _ => true) n (unlines ls) with
      | none =>
        rw [hresult, Located, countP_true] at hfound
        exact iff_of_true rfl hfound
      | some offset =>
        rw [hresult] at hfound
        obtain ⟨as, bs, rfl, hoffset, hcount⟩ := hfound
        have hfront := (searchBack_some hresult).1.1
        rw [countP_true] at hcount
        cases as with
        | nil =>
          rw [hoffset] at hfront
          cases hfront
        | cons a as =>
          simp only [reduceCtorEq, false_iff, length_append, length_cons]
          omega
  · refine iff_of_true ?_ (.inl (not_lt.mp hpos))
    by_contra hfound
    obtain ⟨result, hresult⟩ := ne_none_iff_exists'.1 hfound
    exact hpos (searchBack_some hresult).2.2

/-- The line of an event without data. -/
def eventLine : Bytes :=
  [0x7B, 0x22, 0x74, 0x79, 0x70, 0x65, 0x22, 0x3A, 0x22, 0x65, 0x76, 0x74, 0x22, 0x2C, 0x22,
    0x62, 0x6F, 0x64, 0x79, 0x22, 0x3A, 0x7B, 0x7D, 0x7D]

/-- `ParseEvent` on files of such lines. -/
def parseEventLine (line : Bytes) : Option Bytes := if line = eventLine then some line else none

def eventLines (n : ℕ) : EventsFile where
  lines := List.replicate n eventLine
  clean := by
    intro line hline
    rw [eq_of_mem_replicate hline]
    decide
  short := by
    intro line hline
    rw [eq_of_mem_replicate hline]
    decide

end AppView.Events

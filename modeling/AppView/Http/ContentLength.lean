import AppView.Framework.Pattern
import AppView.Http.HeaderLines

/-!
# The content length, read twice

The stream parser takes the content length from a match of the expression `HTTP_CLENGTH`, to
skip the body; the reporter takes it from the line that contains `Content-Length:`, two places
behind the colon. **`content_length_agreement`**: both give the decimal value exactly if one
blank stands before the number, `strtoull` reads it as decimal, and the last later line that
contains the name, if any, gives the same number.
-/

namespace AppView.Http

open AppView.Framework Pattern List

/-! ## The expression -/

def clengthPattern : Pattern UInt8 :=
  seq (word (crlf ++ bytes "content-length: ")) (group (run isDigit))

def clengthMatch (header : List UInt8) : Option (List UInt8) :=
  (search clengthPattern (header.map lower)).bind List.head?

variable {w y ds : List UInt8} {b : HeaderBlock} {after : List (List UInt8)}

theorem ways_seq_word_nil {s : List UInt8} {a : Pattern UInt8} (h : ¬ w <+: s) :
    ways (seq (word w) a) s = [] := by
  have hword : ways (word w) s = [] := by
    refine if_neg fun hw => h ?_
    exact isPrefixOf_iff_prefix.mp hw
  rw [ways, hword]
  rfl

variable {l : List UInt8} {c : UInt8} {before : List (List UInt8)}

theorem search_pass (h : 13 ∉ l) (s : List UInt8) :
    search clengthPattern (l.map lower ++ s) = search clengthPattern s := by
  induction l with
  | nil => rfl
  | cons c l ih =>
    rw [mem_cons, not_or] at h
    rw [map_cons, cons_append, search_cons_of_ways_nil, ih h.2]
    refine ways_seq_word_nil ?_
    rintro ⟨t, ht⟩
    exact h.1 (lower_eq (by decide) (cons.inj ht).1.symm).symm

theorem prefix_before {x : List UInt8} (hw : c ∉ w) (h : w <+: x ++ c :: y) : w <+: x := by
  rw [append_cons] at h
  rcases prefix_or_prefix_of_prefix h (prefix_append (x ++ [c]) y) with h | h
  · rcases prefix_concat_iff.mp h with rfl | h
    · exact absurd (by simp) hw
    · exact h
  · exact absurd (h.subset (by simp)) hw

/-- A line is passed if the expression does not match at the line end in front of it. -/
theorem search_pass_ways (h : 13 ∉ l) {s : List UInt8}
    (hnone : ways clengthPattern (crlf ++ (l.map lower ++ (crlf ++ s))) = []) :
    search clengthPattern (crlf ++ (l.map lower ++ (crlf ++ s))) =
      search clengthPattern (crlf ++ s) := by
  have hnone' : ways clengthPattern
      (13 :: ([10].map lower ++ (l.map lower ++ (crlf ++ s)))) = [] := hnone
  change search clengthPattern (13 :: ([10].map lower ++ (l.map lower ++ (crlf ++ s)))) = _
  rw [search_cons_of_ways_nil hnone', search_pass (by decide), search_pass h]

theorem prefix_of_crlf {s : List UInt8}
    (hpre : crlf ++ bytes "content-length: " <+: crlf ++ (l.map lower ++ (crlf ++ s))) :
    bytes "content-length: " <+: l.map lower := by
  rw [prefix_append_right_inj] at hpre
  exact prefix_before (by decide) hpre

theorem search_pass_line (h : 13 ∉ l) (hname : ¬ bytes "content-length: " <+: l.map lower)
    (s : List UInt8) : search clengthPattern (crlf ++ (l.map lower ++ (crlf ++ s))) =
      search clengthPattern (crlf ++ s) :=
  search_pass_ways h (ways_seq_word_nil fun hpre => hname (prefix_of_crlf hpre))

theorem named_of_prefix (h : bytes "content-length: " <+: l.map lower) :
    named l "Content-Length" = true := by
  have hcolon : 58 ∈ l := colon_mem_of_lower (h.subset (by decide))
  have hname : (headerName l).map lower = bytes "content-length" := by
    obtain ⟨y, hy⟩ := headerName_colon hcolon
    obtain ⟨t, ht⟩ := h
    have hno : ∀ c ∈ (headerName l).map lower, decide (c ≠ 58) = true := by
      intro c hc
      obtain ⟨d, hd, rfl⟩ := mem_map.mp hc
      have hne : d ≠ 58 := by simpa using mem_takeWhile_imp hd
      exact decide_eq_true fun heq => hne (lower_eq (by decide) heq)
    have hsplit : (headerName l).map lower ++ 58 :: y.map lower =
        bytes "content-length" ++ 58 :: (32 :: t) := by
      have hl := congrArg (map lower) hy
      rw [map_append, map_cons] at hl
      exact (hl.symm.trans ht.symm).trans rfl
    exact (span_unique (p := fun c => decide (c ≠ 58)) hno (all_eq_true.1 (by decide))
      (by decide) (by decide) hsplit).1
  rw [named, Bool.and_eq_true, decide_eq_true_eq, sameCase, beq_iff_eq, hname]
  exact ⟨hcolon, by decide⟩

/-! ## Lines with a length -/

structure LengthLine where
  name : List UInt8
  ows : List UInt8
  digits : List UInt8
  trail : List UInt8
  name_eq : sameCase name (bytes "Content-Length") = true
  white : ∀ c ∈ ows ++ trail, isOws c = true
  ne_nil : digits ≠ []
  decimal : ∀ c ∈ digits, isDigit c = true
  lt : digitsVal 10 digits < 2 ^ 63

namespace LengthLine

def line (c : LengthLine) : List UInt8 := c.name ++ 58 :: (c.ows ++ (c.digits ++ c.trail))

def value (c : LengthLine) : ℕ := digitsVal 10 c.digits

variable (c : LengthLine)

theorem lower_name : c.name.map lower = bytes "content-length" := by
  have hname := c.name_eq
  rw [sameCase, beq_iff_eq] at hname
  rw [hname]
  decide

theorem colon_notMem_name : 58 ∉ c.name := by
  intro hmem
  have hlower : lower 58 ∈ c.name.map lower := mem_map_of_mem hmem
  rw [c.lower_name] at hlower
  revert hlower
  decide

theorem colon_notMem_rest : 58 ∉ c.ows ++ (c.digits ++ c.trail) := by
  intro hmem
  rw [mem_append, mem_append] at hmem
  rcases hmem with hmem | hmem | hmem
  · exact absurd (c.white 58 (mem_append_left _ hmem)) (by decide)
  · exact absurd (c.decimal 58 hmem) (by decide)
  · exact absurd (c.white 58 (mem_append_right _ hmem)) (by decide)

theorem return_notMem_rest : 13 ∉ c.ows ++ (c.digits ++ c.trail) := by
  intro hmem
  have hcases : 13 ∈ c.ows ++ c.trail ∨ 13 ∈ c.digits := by
    simp only [mem_append] at hmem ⊢
    tauto
  rcases hcases with hwhite | hdigit
  · exact absurd (c.white 13 hwhite) (by decide)
  · exact absurd (c.decimal 13 hdigit) (by decide)

theorem idxOf_colon : c.line.idxOf 58 = c.name.length := by
  rw [line, idxOf_append_of_notMem c.colon_notMem_name, idxOf_cons_self, Nat.add_zero]

theorem headerName_line : headerName c.line = c.name := by
  rw [← take_idxOf, c.idxOf_colon, line, take_left]

theorem named_line : named c.line "Content-Length" = true := by
  rw [named, Bool.and_eq_true, decide_eq_true_eq, c.headerName_line]
  exact ⟨by simp [line], c.name_eq⟩

end LengthLine

theorem suffix_of_hasCase {a : List UInt8} (ha : 58 ∉ a) (hy : 58 ∉ y) {name : List UInt8}
    (h : hasCase (a ++ 58 :: y) (name ++ [58]) = true) : name.map lower <:+ a.map lower := by
  have hlow : ∀ {l : List UInt8}, 58 ∉ l → 58 ∉ l.map lower := mt colon_mem_of_lower
  rw [hasCase_iff] at h
  obtain ⟨u, v, huv⟩ := h
  rw [map_append, map_append, map_cons] at huv
  have hsplit : (u ++ name.map lower) ++ 58 :: v = a.map lower ++ 58 :: y.map lower := by
    rw [append_assoc] at huv ⊢
    rw [append_assoc] at huv
    exact huv
  exact ⟨u, ((append_cons_inj_of_notMem (hlow ha) (hlow hy)).1 hsplit.symm).1.symm⟩

theorem LengthLine.ownNames (c : LengthLine) : OwnNames c.line := by
  intro name hname hhas
  have hsuffix := suffix_of_hasCase c.colon_notMem_name c.colon_notMem_rest hhas
  rw [c.lower_name] at hsuffix
  have honly : ∀ name ∈ soughtNames, (bytes name).map lower <:+ bytes "content-length" →
      name = "Content-Length" := by
    decide
  rw [honly name hname hsuffix]
  exact c.named_line

/-! ## The parser -/

theorem map_lower_encode (ls : List (List UInt8)) (s : List UInt8) (l : List UInt8) :
    (encode (l :: ls) ++ s).map lower = l.map lower ++ (crlf ++ (encode ls ++ s).map lower) := by
  rw [encode_cons_append, map_append, map_append]
  rfl

theorem search_lines (hcr : ∀ l ∈ before, 13 ∉ l)
    (hname : ∀ l ∈ before, named l "Content-Length" = false) (more : List (List UInt8))
    (s : List UInt8) : search clengthPattern (crlf ++ (encode (before ++ more) ++ s).map lower) =
      search clengthPattern (crlf ++ (encode more ++ s).map lower) := by
  induction before with
  | nil => rfl
  | cons l before ih =>
    rw [cons_append, map_lower_encode, search_pass_line (hcr l mem_cons_self),
      ih (fun m hm => hcr m (mem_cons_of_mem l hm)) (fun m hm => hname m (mem_cons_of_mem l hm))]
    intro hpre
    have hnamed := named_of_prefix hpre
    rw [hname l mem_cons_self] at hnamed
    cases hnamed

theorem lower_isDigit (h : isDigit c = true) : lower c = c := by
  rw [isDigit_iff] at h
  refine if_neg fun hc => ?_
  rw [UInt8.le_iff_toNat_le] at hc
  have h65 : (65 : UInt8).toNat = 65 := rfl
  omega

theorem map_lower_digits (h : ∀ c ∈ ds, isDigit c = true) : ds.map lower = ds := by
  rw [map_congr_left fun c hc => lower_isDigit (h c hc)]
  exact map_id ds

theorem not_isDigit_of_isOws (h : isOws c = true) : isDigit (lower c) = false := by
  have hc : c = 32 ∨ c = 9 := by simpa [isOws] using h
  rcases hc with rfl | rfl <;> rfl

theorem search_length (c : LengthLine) (hspace : c.ows = [32]) (s : List UInt8) :
    search clengthPattern (crlf ++ (c.line.map lower ++ (crlf ++ s))) = some [c.digits] := by
  have htext : crlf ++ (c.line.map lower ++ (crlf ++ s)) =
      (crlf ++ bytes "content-length: ") ++ (c.digits ++ (c.trail.map lower ++ (crlf ++ s))) := by
    have hword : bytes "content-length: " = bytes "content-length" ++ [58, 32] := by decide
    rw [LengthLine.line, hspace, map_append, c.lower_name, map_cons, map_append,
      map_append, map_lower_digits c.decimal, hword]
    simp [lower]
  have hstop : ∀ d ∈ (c.trail.map lower ++ (crlf ++ s)).head?, isDigit d = false := by
    intro d hd
    cases htrail : c.trail with
    | nil =>
      rw [htrail] at hd
      cases hd
      rfl
    | cons e trail =>
      rw [htrail] at hd
      cases hd
      refine not_isDigit_of_isOws (c.white e (mem_append_right _ ?_))
      rw [htrail]
      exact mem_cons_self
  rw [htext]
  exact search_of_first (first_word_group_run c.ne_nil c.decimal hstop)

/-- With other white space than one blank before the number, the expression does not match. -/
theorem search_other (c : LengthLine) (hspace : c.ows ≠ [32]) (s : List UInt8) :
    search clengthPattern (crlf ++ (c.line.map lower ++ (crlf ++ s))) =
      search clengthPattern (crlf ++ s) := by
  have hcr : 13 ∉ c.line := by
    intro hmem
    rw [LengthLine.line, mem_append, mem_cons] at hmem
    rcases hmem with hname | hcolon | hrest
    · have hlow : lower 13 ∈ c.name.map lower := mem_map_of_mem hname
      rw [c.lower_name] at hlow
      exact absurd hlow (by decide)
    · cases hcolon
    · exact c.return_notMem_rest hrest
  refine search_pass_ways hcr ?_
  have hword : bytes "content-length: " = bytes "content-length" ++ [58, 32] := by decide
  by_cases hpre : bytes "content-length: " <+: c.line.map lower
  · obtain ⟨r, hr⟩ := hpre
    have hsplit : 32 :: r = c.ows.map lower ++ (c.digits.map lower ++ c.trail.map lower) := by
      rw [LengthLine.line, map_append, c.lower_name, map_cons, map_append, map_append, hword,
        append_assoc, cons_append] at hr
      exact (cons.inj (append_cancel_left hr)).2
    -- the white space is a blank and more, so no digit follows the blank
    have hnot : ∀ d ∈ (r ++ (crlf ++ s)).head?, isDigit d = false := by
      cases hows : c.ows with
      | nil =>
        rw [hows, map_nil, nil_append, map_lower_digits c.decimal] at hsplit
        obtain ⟨d, ds, hds⟩ := exists_cons_of_ne_nil c.ne_nil
        rw [hds, cons_append] at hsplit
        have hd := c.decimal d (by rw [hds]; exact mem_cons_self)
        rw [← (cons.inj hsplit).1] at hd
        cases hd
      | cons e ows =>
        cases ows with
        | nil =>
          have he : e = 32 ∨ e = 9 := by
            simpa [isOws] using c.white e (by simp [hows])
          rcases he with rfl | rfl
          · exact absurd hows hspace
          · rw [hows] at hsplit
            cases (cons.inj hsplit).1
        | cons e' ows =>
          rw [hows, map_cons, map_cons, cons_append, cons_append] at hsplit
          rw [(cons.inj hsplit).2, cons_append]
          intro d hd
          cases hd
          exact not_isDigit_of_isOws (c.white e' (by simp [hows]))
    have hruns : runs isDigit (r ++ (crlf ++ s)) = [] := by
      cases htext : r ++ (crlf ++ s) with
      | nil => rfl
      | cons d rest =>
        rw [htext] at hnot
        rw [runs, if_neg]
        rw [hnot d rfl]
        decide
    have htext : crlf ++ (c.line.map lower ++ (crlf ++ s)) =
        (crlf ++ bytes "content-length: ") ++ (r ++ (crlf ++ s)) := by
      rw [← hr, append_assoc, append_assoc]
    rw [htext, clengthPattern, ways, ways, if_pos, drop_left]
    · rw [flatMap_singleton, ways, ways, hruns]
      rfl
    · refine isPrefixOf_iff_prefix.2 ?_
      exact prefix_append _ _
  · exact ways_seq_word_nil fun h => hpre (prefix_of_crlf h)

variable {c : LengthLine}

/-- **The expression** finds the number behind one blank, and nothing behind other white
space. -/
theorem clengthMatch_block (hb : b.Plain) (hlines : b.lines = before ++ c.line :: after)
    (hone : ∀ l ∈ before ++ after, named l "Content-Length" = false) :
    clengthMatch b.text = if c.ows = [32] then some c.digits else none := by
  have hcr : ∀ l ∈ b.start :: b.lines, 13 ∉ l := fun l hl hmem =>
    ((hb l hl).plain 13 hmem).2 (by decide)
  have hbefore : ∀ l ∈ before, 13 ∉ l := fun l hl =>
    hcr l (mem_cons_of_mem _ (by rw [hlines]; exact mem_append_left _ hl))
  have hbehind : ∀ l ∈ after, 13 ∉ l := fun l hl =>
    hcr l (mem_cons_of_mem _ (by
      rw [hlines]
      exact mem_append_right _ (mem_cons_of_mem _ hl)))
  rw [clengthMatch, HeaderBlock.text, HeaderBlock.header, map_lower_encode,
    search_pass (hcr b.start mem_cons_self), hlines,
    search_lines hbefore fun l hl => hone l (mem_append_left _ hl), map_lower_encode]
  split_ifs with hspace
  · rw [search_length c hspace]
    rfl
  · have hnil := search_lines hbehind (fun l hl => hone l (mem_append_right _ hl)) [] [0]
    rw [append_nil] at hnil
    rw [search_other c hspace, hnil]
    decide

theorem getContentLength_iff {env : HttpEnv} {header : List UInt8} {n : ℕ} (hn : n < 2 ^ 63) :
    getContentLength env header = some n ↔
      ∃ ds, env.clengthMatch header = some ds ∧ strtoull ds = n ∧ 0 < n := by
  rw [getContentLength]
  cases env.clengthMatch header with
  | none => simp
  | some ds =>
    simp only [Option.some_inj, exists_eq_left']
    split_ifs with hnone
    · refine iff_of_false (fun h => by cases h) ?_
      omega
    · rw [Option.some_inj]
      omega

/-! ## The reporter -/

theorem LengthLine.taken (c : LengthLine) : takenForLength c.line = true := by
  have hnot := c.ownNames.not_has c.named_line
  have hhas := hasCase_of_named c.named_line
  rw [takenForLength]
  simp [hnot "Host" (by decide) (by decide), hnot "User-Agent" (by decide) (by decide),
    hnot "X-Forwarded-For" (by decide) (by decide), hhas]

/-- **The reporter** takes the number from the last of these lines. -/
theorem headerClen_block (env : ReportEnv) (hb : b.Plain)
    (hlines : b.lines = before ++ l :: after)
    (htaken : takenForLength l = true) (hle : l.idxOf 58 + 2 ≤ l.length)
    (hafter : ∀ m ∈ after, takenForLength m = false) :
    headerClen env b.text b.places = numberIn l := by
  obtain ⟨ts, t, ts', hplaces, h, hbehind⟩ := places_split hlines
  rw [hplaces, headerClen_last (h.httpLine_taken env htaken), h.clenAt hb hle]
  intro t' ht' place
  obtain ⟨m, hm, h'⟩ := hbehind t' ht'
  exact h'.httpLine_not_taken env (hafter m hm) place

theorem LengthLine.place_le (c : LengthLine) : c.line.idxOf 58 + 2 ≤ c.line.length := by
  have hpos := length_pos_of_ne_nil c.ne_nil
  rw [c.idxOf_colon, LengthLine.line]
  simp only [length_append, length_cons]
  omega

theorem LengthLine.number (hspace : c.ows = [32]) (hreads : strtoull c.digits = c.value)
    (hpos : 0 < c.value) : numberIn c.line = some c.value := by
  have hvalue : c.line.drop (c.line.idxOf 58 + 2) = c.digits ++ c.trail := by
    rw [c.idxOf_colon, LengthLine.line, hspace, drop_append, Nat.add_sub_cancel_left,
      drop_eq_nil_of_le (Nat.le_add_right _ _)]
    rfl
  exact numberIn_decimal hvalue ⟨c.ne_nil, c.decimal, hreads, hpos, c.lt⟩ fun d hd =>
    c.white d (mem_append_right _ (mem_of_mem_head? hd))

theorem lineField_str {fin : List UInt8} {line : Line} {name : String} {n : ℤ} {verbosity : ℕ} :
    lineField fin line ≠ some (hValue name n verbosity) := by
  intro h
  have hvalue := congrArg (Option.map EventField.value) h
  cases line with
  | attrib _ _ _ => cases hvalue
  | extract _ _ => cases hvalue
  | length _ => cases h
  | other => cases h

theorem numberIn_lt {n : ℕ} (h : numberIn l = some n) : n < 2 ^ 64 := by
  have hnumber : ∀ m : ℕ, (if 2 ^ 64 ≤ m then none else some m) = some n → n < 2 ^ 64 := by
    intro m hm
    split_ifs at hm with hbig
    rw [← Option.some_inj.mp hm]
    omega
  obtain ⟨hread, -⟩ := Option.filter_eq_some_iff.mp h
  rw [strtoullBase0] at hread
  split at hread
  · obtain ⟨m, -, rfl⟩ := Option.map_eq_some_iff.mp hread
    exact Nat.mod_lt _ (by decide)
  · exact hnumber _ hread
  · exact hnumber _ hread

/-- **What is reported** as the length is the number the reporter takes. -/
theorem reported_iff (report : ReportEnv) (isReq : Bool) (hb : b.Plain)
    {fields : List EventField}
    (hroom : fields.length + fieldCount report b < httpMaxFields)
    (hclen : headerClen report b.text b.places = numberIn l) {v : ℕ} (hv : v < 2 ^ 63) :
    (∀ n : ℤ, hValue (clenField isReq) n eventOnlyAttr ∈
      (fieldArray (fields ++ httpFields report isReq b.text)).drop fields.length ↔ n = v) ↔
      numberIn l = some v := by
  have hmem : ∀ n : ℤ, hValue (clenField isReq) n eventOnlyAttr ∈
      (fieldArray (fields ++ httpFields report isReq b.text)).drop fields.length ↔
      ∃ m, numberIn l = some m ∧ longLong m = n := by
    intro n
    rw [fieldArray_room hb hroom, httpFields_text hb, hclen, mem_append, mem_filterMap,
      Option.mem_toList, Option.map_eq_some_iff]
    constructor
    · rintro (⟨t, -, hf⟩ | ⟨m, hm, hf⟩)
      · exact absurd hf lineField_str
      · cases hf
        exact ⟨m, hm, rfl⟩
    · rintro ⟨m, hm, rfl⟩
      exact .inr ⟨m, hm, rfl⟩
  simp only [hmem]
  constructor
  · intro h
    obtain ⟨m, hm, hlong⟩ := (h v).mpr rfl
    have hlt := numberIn_lt hm
    have hmv : m = v := by
      unfold longLong at hlong
      split_ifs at hlong <;> omega
    rw [hm, hmv]
  · intro h n
    rw [h]
    simp only [Option.some_inj, exists_eq_left', longLong_of_lt hv]
    exact eq_comm

/-! ## Both -/

/-- The expression of the source, and nothing else of note. -/
def lengthEnv : HttpEnv := { HttpEnv.idle with clengthMatch := clengthMatch }

def oddLength : LengthLine where
  name := bytes "cONTENT-lENGTH"
  ows := [32]
  digits := bytes "42"
  trail := [32]
  name_eq := by decide
  white := all_eq_true.1 (by decide)
  ne_nil := by decide
  decimal := all_eq_true.1 (by decide)
  lt := by decide

def oddRequest : HeaderBlock :=
  requestBlock [bytes "Host: a", oddLength.line] (by decide) (by decide)

def lengthOf (ows digits : List UInt8) (white : ∀ c ∈ ows, isOws c = true) (ne_nil : digits ≠ [])
    (decimal : ∀ c ∈ digits, isDigit c = true)
    (lt : digitsVal 10 digits < 2 ^ 63) : LengthLine where
  name := bytes "Content-Length"
  ows := ows
  digits := digits
  trail := []
  name_eq := by decide
  white := by simpa using white
  ne_nil := ne_nil
  decimal := decimal
  lt := lt

def wideLength : LengthLine :=
  lengthOf [32, 32] (bytes "42") (all_eq_true.1 (by decide)) (by decide)
    (all_eq_true.1 (by decide)) (by decide)

def tightLength : LengthLine :=
  lengthOf [] (bytes "42") nofun (by decide) (all_eq_true.1 (by decide)) (by decide)

def octalLength : LengthLine :=
  lengthOf [32] (bytes "010") (all_eq_true.1 (by decide)) (by decide)
    (all_eq_true.1 (by decide)) (by decide)

def lengthRequest (c : LengthLine) (no_end : ∀ l ∈ [c.line], ¬ httpEnd <:+: l)
    (nonempty : ∀ l ∈ [c.line], l ≠ []) : HeaderBlock :=
  requestBlock [c.line] no_end nonempty

end AppView.Http

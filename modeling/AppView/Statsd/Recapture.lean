import AppView.Statsd.Capture
import AppView.Statsd.Tags

/-!
# Capturing the library's own lines

A line that `mtcFormatStatsDString` printed is given to the library's own capture.
-/

namespace AppView.Statsd

open AppView.Framework Pattern List Option

variable {δ : Type*}

/-- **What a line looks like**: its head, some of the metric's tags in their order, and the
newline. -/
theorem mtcFormatStatsDString_eq {printFlt : δ → List Char} {fmt : MtcFmt} {e : Event δ}
    {fieldFilter : Option (List Char → Bool)} {line : List Char}
    (h : mtcFormatStatsDString printFlt fmt e fieldFilter = some line) :
    ∃ opened tags, tags.Sublist (metricTags fmt e fieldFilter) ∧
      line = lineHead printFlt fmt e ++ (tagsText opened tags ++ ['\n']) := by
  obtain ⟨rfl, tags, hprints⟩ := mtcFormatStatsDString_prints h
  obtain ⟨opened, htext⟩ := hprints.text
  refine ⟨opened, tags, ?_, by rw [htext, append_assoc]⟩
  rw [← filterMap_eligible]
  exact hprints.sub

/-! ## Reading the tags -/

variable {c : Char} {x : List Char} {tag : Tag}

theorem strchr_append {y : List Char} (h : c ∉ x) : strchr c (x ++ c :: y) = some (x, y) := by
  induction x with
  | nil => simp [strchr]
  | cons d x ih =>
    rw [mem_cons, not_or] at h
    obtain ⟨hd, hx⟩ := h
    rw [cons_append, strchr, if_neg (Ne.symm hd), ih hx]
    rfl

theorem strchr_eq_none (h : c ∉ x) : strchr c x = none := by
  induction x with
  | nil => rfl
  | cons d x ih =>
    rw [mem_cons, not_or] at h
    obtain ⟨hd, hx⟩ := h
    rw [strchr, if_neg (Ne.symm hd), ih hx]
    rfl

def addLast (text : List Char) : List Tag → List Tag
  | [] => []
  | [tag] => [(tag.1, tag.2 ++ text)]
  | tag :: tags => tag :: addLast text tags

theorem length_addLast (text : List Char) (tags : List Tag) :
    (addLast text tags).length = tags.length := by
  fun_induction addLast text tags with
  | case1 => rfl
  | case2 => rfl
  | case3 tag tags _ ih => rw [length_cons, length_cons, ih]

variable {text name value type : List Char} {z : ℤ} {n : Int64}

theorem addLast_mem {tags : List Tag} (h : tags ≠ []) :
    ∃ name value, (name, value ++ text) ∈ addLast text tags := by
  fun_induction addLast text tags with
  | case1 => exact absurd rfl h
  | case2 tag => exact ⟨tag.1, tag.2, by simp⟩
  | case3 tag tags hne ih =>
    obtain ⟨name, value, hmem⟩ := ih hne
    exact ⟨name, value, mem_cons_of_mem _ hmem⟩

def Separate (tag : Tag) : Prop := ':' ∉ tag.1 ∧ ',' ∉ tag.2

theorem dimPairs_last (h : Separate tag) : dimPairs (tagText tag) = [tag] := by
  rw [dimPairs, tagText, strchr_append h.1]
  dsimp only
  rw [strchr_eq_none h.2]

theorem dimPairs_cons (h : Separate tag) (rest : List Char) :
    dimPairs (tagText tag ++ ',' :: rest) = tag :: dimPairs rest := by
  have hsplit : tagText tag ++ ',' :: rest = tag.1 ++ ':' :: (tag.2 ++ ',' :: rest) := by
    simp [tagText]
  rw [hsplit, dimPairs, strchr_append h.1]
  dsimp only
  rw [strchr_append h.2]

theorem dimPairs_tagList (htext : ',' ∉ text) {tags : List Tag} (hne : tags ≠ [])
    (h : ∀ tag ∈ tags, Separate tag) :
    dimPairs (tagList tags ++ text) = addLast text tags := by
  fun_induction addLast text tags with
  | case1 => exact absurd rfl hne
  | case2 tag =>
    obtain ⟨hname, hvalue⟩ := h tag (by simp)
    have hlast : tagList [tag] ++ text = tagText (tag.1, tag.2 ++ text) := by
      simp [tagList, tagText]
    rw [hlast]
    exact dimPairs_last ⟨hname, by simp [hvalue, htext]⟩
  | case3 tag tags hcons ih =>
    obtain ⟨next, tags, rfl⟩ := exists_cons_of_ne_nil hcons
    have hsplit : tagList (tag :: next :: tags) ++ text =
        tagText tag ++ ',' :: (tagList (next :: tags) ++ text) := by
      simp [tagList]
    rw [hsplit, dimPairs_cons (h tag (by simp)), ih (by simp) (forall_mem_cons.1 h).2]

/-! ## Matching a line -/

def statsdTypes : List (List Char) := [['c'], ['g'], ['m', 's'], ['s'], ['h']]

theorem statsdType_mem (type : DataType) : statsdType type ∈ statsdTypes := by
  cases type <;> decide

theorem typeFromStr_statsdType (type : DataType) : typeFromStr (statsdType type) = type := by
  cases type <;> decide

structure MetricText (name value type : List Char) : Prop where
  name_ne : name ≠ []
  name : ∀ c ∈ name, decide (c ≠ ':') = true
  value_ne : value ≠ []
  value : ∀ c ∈ value, isNumeric c = true
  type : type ∈ statsdTypes

theorem mem_ways_metricPattern {tail : List (Pattern Char)} {s r : List Char}
    {cs : List (List Char)} : (cs, r) ∈ ways (metricPattern tail) s ↔ ∃ name value type cs' u,
      MetricText name value type ∧ cs = name :: value :: type :: cs' ∧
      s = name ++ ':' :: (value ++ '|' :: (type ++ u)) ∧ (cs', r) ∈ ways (seqAll tail) u := by
  have hname := (reads_run fun c : Char => decide (c ≠ ':')).group
  have hvalue := (reads_run isNumeric).group
  have htype : Captures typePattern (· ∈ statsdTypes) := (reads_anyWord statsdTypes).group
  constructor
  · intro h₀
    obtain ⟨name, _, _, rfl, hn, rfl, h₁⟩ := hname.seq.1 (mem_ways_seqAll_cons.1 h₀)
    obtain ⟨_, _, rfl, rfl, h₂⟩ := (reads_word _).seq.1 (mem_ways_seqAll_cons.1 h₁)
    obtain ⟨value, _, _, rfl, hv, rfl, h₃⟩ := hvalue.seq.1 (mem_ways_seqAll_cons.1 h₂)
    obtain ⟨_, _, rfl, rfl, h₄⟩ := (reads_word _).seq.1 (mem_ways_seqAll_cons.1 h₃)
    obtain ⟨type, u, cs', rfl, ht, rfl, h₅⟩ := htype.seq.1 (mem_ways_seqAll_cons.1 h₄)
    exact ⟨name, value, type, cs', u, ⟨hn.1, hn.2, hv.1, hv.2, ht⟩, rfl, rfl, h₅⟩
  · rintro ⟨name, value, type, cs', u, h, rfl, rfl, hrest⟩
    refine mem_ways_seqAll_cons.2 (hname.seq.2 ⟨_, _, _, rfl, ⟨h.name_ne, h.name⟩, rfl, ?_⟩)
    refine mem_ways_seqAll_cons.2 ((reads_word _).seq.2 ⟨_, _, rfl, rfl, ?_⟩)
    refine mem_ways_seqAll_cons.2 (hvalue.seq.2 ⟨_, _, _, rfl, ⟨h.value_ne, h.value⟩, rfl, ?_⟩)
    refine mem_ways_seqAll_cons.2 ((reads_word _).seq.2 ⟨_, _, rfl, rfl, ?_⟩)
    exact mem_ways_seqAll_cons.2 (htype.seq.2 ⟨_, _, _, rfl, h.type, rfl, hrest⟩)

theorem type_unique {t t' x' : List Char} (ht : t ∈ statsdTypes) (ht' : t' ∈ statsdTypes)
    (h : t ++ x = t' ++ x') : t = t' ∧ x = x' := by
  have hfree : ∀ t ∈ statsdTypes, ∀ t' ∈ statsdTypes, t <+: t' → t = t' := by decide
  have heq : t = t' := by
    rcases prefix_or_prefix_of_prefix ⟨x, rfl⟩ (h ▸ ⟨x', rfl⟩ : t' <+: t ++ x) with hp | hp
    · exact hfree t ht t' ht' hp
    · exact (hfree t' ht' t ht hp).symm
  subst heq
  exact ⟨rfl, append_cancel_left h⟩

theorem isNumeric_ne_bar (h : isNumeric c = true) : decide (c ≠ '|') = true := by
  refine decide_eq_true ?_
  rintro rfl
  cases h

theorem metric_unique {u p d t : List Char} (h : MetricText name value type) (hp : ':' ∉ p)
    (hd : '|' ∉ d) (ht : t ∈ statsdTypes)
    (hs : p ++ ':' :: (d ++ '|' :: (t ++ x)) = name ++ ':' :: (value ++ '|' :: (type ++ u))) :
    name = p ∧ value = d ∧ type = t ∧ u = x := by
  have hcolon : ∀ c ∈ p, decide (c ≠ ':') = true := by
    intro c hc
    exact decide_eq_true (ne_of_mem_of_not_mem hc hp)
  have hbar : ∀ c ∈ d, decide (c ≠ '|') = true := by
    intro c hc
    exact decide_eq_true (ne_of_mem_of_not_mem hc hd)
  obtain ⟨rfl, -, hs⟩ := span_unique hcolon h.name (by decide) (by decide) hs
  obtain ⟨rfl, -, hs⟩ := span_unique hbar (fun c hc => isNumeric_ne_bar (h.value c hc))
    (by decide) (by decide) hs
  obtain ⟨rfl, rfl⟩ := type_unique ht h.type hs
  exact ⟨rfl, rfl, rfl, rfl⟩

theorem MetricText.colon_notMem (h : MetricText name value type) : ':' ∉ name := by
  intro hc
  exact absurd (h.name _ hc) (by decide)

theorem colon_notMem_of_doMetricBuffer {buf : List Char} {metric : CapturedMetric}
    (h : doMetricBuffer buf = some metric) : ':' ∉ metric.name := by
  unfold doMetricBuffer at h
  split at h
  case h_1 name value type dims r hext =>
    cases h
    obtain ⟨cs₁, u, cs₂, hhead, -, hcs⟩ := mem_ways_seq.1 (mem_of_first hext).1
    obtain ⟨n, v, t, cs', -, htext, rfl, -, -⟩ := mem_ways_metricPattern.1 hhead
    obtain ⟨rfl, -⟩ := cons.inj hcs
    exact htext.colon_notMem
  case h_2 =>
    split at h
    case h_1 name value type r hstd =>
      cases h
      obtain ⟨n, v, t, cs', -, htext, hcs, -, -⟩ :=
        mem_ways_metricPattern.1 (mem_of_first hstd).1
      obtain ⟨rfl, -⟩ := cons.inj hcs
      exact htext.colon_notMem
    case h_2 => cases h

section Line

variable {p d t : List Char} {opened : Bool} {tags : List Tag}

def lineOf (p d t : List Char) (opened : Bool) (tags : List Tag) : List Char :=
  p ++ ':' :: (d ++ '|' :: (t ++ (tagsText opened tags ++ ['\n'])))

variable {y : List (List Char) × List Char}

theorem statsdPattern_line (hp : ':' ∉ p) (hd : '|' ∉ d) (ht : t ∈ statsdTypes)
    (h : y ∈ ways statsdPattern (lineOf p d t opened tags)) (hend : atEnd y.2 = true) :
    tags = [] ∧ MetricText p d t ∧ y.1 = [p, d, t] := by
  obtain ⟨cs, r⟩ := y
  obtain ⟨name, value, type, cs', u, htext, rfl, hs, hrest⟩ := mem_ways_metricPattern.1 h
  obtain ⟨rfl, rfl, rfl, rfl⟩ := metric_unique htext hp hd ht hs
  obtain ⟨rfl, hr⟩ := mem_ways_word.1 hrest
  refine ⟨?_, htext, rfl⟩
  cases tags with
  | nil => rfl
  | cons tag tags =>
    -- after the type stand the tags, so it is not the end
    subst hr
    cases opened with
    | false | true => simp [atEnd, tagsText] at hend

theorem extHead_line (hp : ':' ∉ p) (hd : '|' ∉ d) (ht : t ∈ statsdTypes)
    (h : y ∈ ways (metricPattern [.word ['|']]) (lineOf p d t opened tags)) :
    MetricText p d t ∧ y.1 = [p, d, t] ∧ tagsText opened tags ++ ['\n'] = '|' :: y.2 := by
  obtain ⟨cs, r⟩ := y
  obtain ⟨name, value, type, cs', u, htext, rfl, hs, hrest⟩ := mem_ways_metricPattern.1 h
  obtain ⟨rfl, rfl, rfl, rfl⟩ := metric_unique htext hp hd ht hs
  obtain ⟨rfl, hr⟩ := mem_ways_word.1 hrest
  exact ⟨htext, rfl, hr⟩

theorem statsdExtPattern_line (hp : ':' ∉ p) (hd : '|' ∉ d) (ht : t ∈ statsdTypes)
    (h : first atEnd statsdExtPattern (lineOf p d t opened tags) = some y) :
    tags ≠ [] ∧ MetricText p d t ∧ y.1 = [p, d, t, '#' :: (tagList tags ++ ['\n'])] := by
  obtain ⟨hmem, hend⟩ := mem_of_first h
  obtain ⟨cs, r⟩ := y
  obtain ⟨cs₁, u, cs₂, hhead, hdims, rfl⟩ := mem_ways_seq.1 hmem
  obtain ⟨htext, hgroups, hbar⟩ := extHead_line hp hd ht hhead
  -- the tags are there, after `|#`
  obtain ⟨g, cs', -, hu, hg⟩ := mem_ways_group.1 hdims
  obtain ⟨w, z, hw, hwz, hz⟩ := (reads_word _).seq.1 hg
  subst hw
  obtain ⟨-, z', ⟨-, hz'⟩, rfl⟩ := (reads_run _).1 hz
  cases tags with
  | nil => simp [tagsText] at hbar
  | cons tag tags =>
    have hopened : opened = true := by
      cases opened with
      | false => simp [tagsText] at hbar
      | true => rfl
    subst hopened
    have hu' : u = ['#'] ++ (tagList (tag :: tags) ++ ['\n']) := by
      simpa [tagsText] using hbar.symm
    have hlist : tagList (tag :: tags) ++ ['\n'] = z' ++ r := by
      rw [hu'] at hwz
      simpa using hwz
    -- so no character after the `#` stops the run
    have hall : ∀ c ∈ tagList (tag :: tags) ++ ['\n'], decide (c ≠ '$') = true := by
      intro c hc
      rw [hlist, mem_append] at hc
      rcases hc with hc | hc
      · exact hz' c hc
      · have hr : r = [] ∨ r = ['\n'] := by simpa [atEnd] using hend
        rcases hr with rfl | rfl
        · cases hc
        · obtain rfl := mem_singleton.1 hc
          decide
    have hrun : first atEnd dimsPattern u =
        some ([['#'] ++ (tagList (tag :: tags) ++ ['\n'])], []) := by
      rw [hu']
      exact first_word_run (by decide) (by simp) hall
    have hfirst := first_seq hhead hrun fun z hz _ => by
      obtain ⟨-, hzg, hzu⟩ := extHead_line hp hd ht hz
      have hrest : z.2 = u := cons_injective (hzu.symm.trans hbar)
      exact Prod.ext (hzg.trans hgroups.symm) hrest
    rw [statsdExtPattern, hfirst] at h
    refine ⟨by simp, htext, ?_⟩
    have hy := congrArg Prod.fst (some.inj h)
    rw [← hy]
    rw [hgroups]
    rfl

/-- **What is captured of a line**, if its name is the captured one. -/
theorem doMetricBuffer_line (hd : '|' ∉ d) (ht : t ∈ statsdTypes) {metric : CapturedMetric}
    (h : doMetricBuffer (lineOf p d t opened tags) = some metric) (hname : metric.name = p) :
    MetricText p d t ∧ metric.value = d ∧ metric.type = t ∧
      metric.dims = if tags = [] then none else some ('#' :: (tagList tags ++ ['\n'])) := by
  have hp : ':' ∉ p := hname ▸ colon_notMem_of_doMetricBuffer h
  unfold doMetricBuffer at h
  split at h
  case h_1 name value type dims r hext =>
    cases h
    obtain ⟨hne, htext, hgroups⟩ := statsdExtPattern_line hp hd ht hext
    obtain ⟨-, rfl, rfl, rfl⟩ := hgroups
    exact ⟨htext, rfl, rfl, (if_neg hne).symm⟩
  case h_2 =>
    split at h
    case h_1 name value type r hstd =>
      cases h
      obtain ⟨hmem, hend⟩ := mem_of_first hstd
      obtain ⟨rfl, htext, hgroups⟩ := statsdPattern_line hp hd ht hmem hend
      obtain ⟨-, rfl, rfl⟩ := hgroups
      exact ⟨htext, rfl, rfl, (if_pos rfl).symm⟩
    case h_2 => cases h

theorem doMetricBuffer_plain (hd : '|' ∉ d) (h : MetricText p d t) :
    doMetricBuffer (lineOf p d t opened []) = some ⟨p, d, t, none⟩ := by
  have hp := h.colon_notMem
  have hext : first atEnd statsdExtPattern (lineOf p d t opened []) = none := by
    refine eq_none_iff_forall_ne_some.2 fun y hy => ?_
    exact (statsdExtPattern_line hp hd h.type hy).1 rfl
  have hmem : ([p, d, t], ['\n']) ∈ ways statsdPattern (lineOf p d t opened []) :=
    mem_ways_metricPattern.2 ⟨p, d, t, [], ['\n'], h, rfl, rfl, mem_ways_word.2 ⟨rfl, rfl⟩⟩
  have hend : atEnd ['\n'] = true := by decide
  obtain ⟨y, hy, hgroups⟩ := first_of_unique hmem hend fun z hz hend =>
    (statsdPattern_line hp hd h.type hz hend).2.2
  obtain ⟨cs, r⟩ := y
  subst hgroups
  rw [doMetricBuffer, hext]
  rw [hy]

end Line

/-! ## The round trip -/

def LegalTag (tag : Tag) : Prop :=
  (∀ c ∈ tag.1, c ∉ [':', ',', '|', '#', '\n', '\x00']) ∧
  (∀ c ∈ tag.2, c ∉ [',', '|', '#', '\n', '\x00'])

theorem LegalTag.separate (h : LegalTag tag) : Separate tag :=
  ⟨fun hc => h.1 _ hc (by decide), fun hc => h.2 _ hc (by decide)⟩

def fieldsOf (tags : List Tag) : List Field := tags.map fun tag => ⟨tag.1, .str (some tag.2), 0⟩

theorem fieldsOf_injective : Function.Injective fieldsOf := by
  refine map_injective_iff.2 ?_
  rintro ⟨n, v⟩ ⟨n', v'⟩ h
  cases h
  rfl

def Recaptured (strtod : List Char → Option δ) (builtIn : List Field) (fmt : MtcFmt)
    (e : Event δ) (fieldFilter : Option (List Char → Bool)) (line : List Char) : Prop :=
  ∃ metric out, doMetricBuffer line = some metric ∧
    reportCapturedMetric strtod builtIn metric = some out ∧
    out.name = fmt.statsdPrefix ++ e.name ∧ out.value = e.value ∧ out.type = e.type ∧
    out.capturedFields = fieldsOf (metricTags fmt e fieldFilter)

theorem bar_notMem_decimal (z : ℤ) : '|' ∉ decimal z := by
  intro hc
  rcases mem_decimal hc with h | h
  · cases h
  · cases h

theorem nonneg_of_numeric (h : ∀ c ∈ decimal z, isNumeric c = true) : 0 ≤ z := by
  cases z with
  | ofNat n => exact Int.natCast_nonneg n
  | negSucc n => exact absurd (h '-' (by simp [decimal])) (by decide)

theorem numeric_of_nonneg (hz : 0 ≤ z) : decimal z ≠ [] ∧ ∀ c ∈ decimal z, c.isDigit = true := by
  obtain ⟨n, rfl⟩ := Int.eq_ofNat_of_zero_le hz
  exact ⟨Nat.toDigits_ne_nil, fun c hc => isDigit_of_mem_toDigits hc⟩

theorem strtoll_decimal (hn : 0 ≤ n.toInt) : strtoll (decimal n.toInt) = some n := by
  obtain ⟨k, hk⟩ := Int.eq_ofNat_of_zero_le hn
  have hlt : k < 2 ^ 63 := by
    have hrange := Int64.toInt_lt n
    omega
  have hend : NoDigit [] := by simp [NoDigit]
  have hread : readNat (decimal n.toInt) = some (k, []) := by
    rw [hk]
    simpa [decimal_natCast] using readNat_toDigits k hend
  have hback : Int64.ofNat k = n := by
    have hof : Int64.ofInt n.toInt = n := Int64.ofInt_toInt n
    rw [hk] at hof
    exact hof
  rw [strtoll, hread]
  dsimp only
  rw [if_pos hlt, hback]

theorem reportCapturedMetric_int (strtod : List Char → Option δ) (builtIn : List Field)
    (hn : 0 ≤ n.toInt) (name type : List Char) (dims : Option (List Char)) :
    reportCapturedMetric strtod builtIn ⟨name, decimal n.toInt, type, dims⟩ =
      some ⟨name, .int n, typeFromStr type, builtIn, createFieldsForCapturedMetrics dims⟩ := by
  have hdigits := (numeric_of_nonneg hn).2
  have hpoint : ¬ ('.' ∈ decimal n.toInt ∨ ',' ∈ decimal n.toInt) := by
    rintro (hc | hc)
    · cases hdigits _ hc
    · cases hdigits _ hc
  rw [reportCapturedMetric]
  rw [if_neg hpoint, strtoll_decimal hn]
  rfl

/-- **Tags do not come back as they were**: the last one has the newline. -/
theorem createFields_ne {tags given : List Tag} (hsub : tags.Sublist given) (hne : tags ≠ [])
    (hlegal : ∀ tag ∈ given, LegalTag tag) :
    createFieldsForCapturedMetrics (some ('#' :: (tagList tags ++ ['\n']))) ≠ fieldsOf given := by
  intro h
  have hpairs : dimPairs (tagList tags ++ ['\n']) = addLast ['\n'] tags :=
    dimPairs_tagList (by decide) hne fun tag ht => (hlegal tag (hsub.subset ht)).separate
  have htake : (addLast ['\n'] tags).take (httpMaxFields - 1) = given := by
    refine fieldsOf_injective ?_
    rw [← h, createFieldsForCapturedMetrics, ← hpairs]
    rfl
  -- none of the tags is missing, so the last one is there
  have hlen : (addLast ['\n'] tags).length ≤ httpMaxFields - 1 := by
    have hcount := congrArg length htake
    rw [length_take, length_addLast] at hcount
    have hle := hsub.length_le
    rw [length_addLast]
    omega
  rw [take_of_length_le hlen] at htake
  obtain ⟨name, value, hmem⟩ : ∃ name value, (name, value ++ ['\n']) ∈ addLast ['\n'] tags :=
    addLast_mem hne
  rw [htake] at hmem
  exact (hlegal _ hmem).2 '\n' (by simp) (by decide)

/-- **A line is captured as the metric it was printed from exactly if the metric has no
tags**, no sign, and a name that is not empty and without colon. -/
theorem statsd_recapture (printFlt : δ → List Char) (strtod : List Char → Option δ)
    (builtIn : List Field) (fmt : MtcFmt) (e : Event δ)
    (fieldFilter : Option (List Char → Bool)) {n : Int64} (hint : e.value = .int n)
    (hlegal : ∀ tag ∈ metricTags fmt e fieldFilter, LegalTag tag) :
    (∀ line, mtcFormatStatsDString printFlt fmt e fieldFilter = some line →
      Recaptured strtod builtIn fmt e fieldFilter line) ↔
    fmt.maxLen ≤ (lineHead printFlt fmt e).length ∨
      (0 ≤ n.toInt ∧ metricTags fmt e fieldFilter = [] ∧ fmt.statsdPrefix ++ e.name ≠ [] ∧
        ':' ∉ fmt.statsdPrefix ++ e.name) := by
  have hline : ∀ opened tags, lineHead printFlt fmt e ++ (tagsText opened tags ++ ['\n']) =
      lineOf (fmt.statsdPrefix ++ e.name) (decimal n.toInt) (statsdType e.type) opened tags := by
    intro opened tags
    simp [lineHead, lineOf, valueText, hint]
  have hbar := bar_notMem_decimal n.toInt
  have htype := statsdType_mem e.type
  constructor
  · intro hall
    by_cases hfits : fmt.maxLen ≤ (lineHead printFlt fmt e).length
    · exact Or.inl hfits
    obtain ⟨line, hprint⟩ : ∃ line, mtcFormatStatsDString printFlt fmt e fieldFilter = some line :=
      ⟨_, if_neg hfits⟩
    obtain ⟨opened, tags, hsub, rfl⟩ := mtcFormatStatsDString_eq hprint
    obtain ⟨metric, out, hmetric, hout, hname, -, -, htags⟩ := hall _ hprint
    rw [hline] at hmetric
    have hmetricName : metric.name = fmt.statsdPrefix ++ e.name := by
      obtain ⟨v, -, rfl⟩ := map_eq_some_iff.1 hout
      exact hname
    obtain ⟨htext, -, -, hdims⟩ := doMetricBuffer_line hbar htype hmetric hmetricName
    have hcaptured : createFieldsForCapturedMetrics metric.dims =
        fieldsOf (metricTags fmt e fieldFilter) := by
      obtain ⟨v, -, rfl⟩ := map_eq_some_iff.1 hout
      exact htags
    have hnone : tags = [] := by
      by_contra hne
      rw [hdims, if_neg hne] at hcaptured
      exact createFields_ne hsub hne hlegal hcaptured
    rw [hdims, if_pos hnone] at hcaptured
    refine Or.inr ⟨nonneg_of_numeric htext.value, ?_, htext.name_ne, htext.colon_notMem⟩
    exact (fieldsOf_injective (hcaptured.trans rfl : fieldsOf [] = _)).symm
  · rintro (hlong | ⟨hn, hnone, hne, hcolon⟩) line hprint
    · have hno : mtcFormatStatsDString printFlt fmt e fieldFilter = none := if_pos hlong
      rw [hno] at hprint
      cases hprint
    · obtain ⟨opened, tags, hsub, rfl⟩ := mtcFormatStatsDString_eq hprint
      obtain rfl : tags = [] := by
        rw [hnone] at hsub
        exact sublist_nil.1 hsub
      obtain ⟨hdne, hdigits⟩ := numeric_of_nonneg hn
      have htext : MetricText (fmt.statsdPrefix ++ e.name) (decimal n.toInt)
          (statsdType e.type) := by
        refine ⟨hne, fun c hc => ?_, hdne, fun c hc => ?_, htype⟩
        · exact decide_eq_true (ne_of_mem_of_not_mem hc hcolon)
        · simp [isNumeric, hdigits c hc]
      rw [hline]
      refine ⟨_, _, doMetricBuffer_plain hbar htext,
        reportCapturedMetric_int strtod builtIn hn .., rfl, hint.symm,
        typeFromStr_statsdType e.type, ?_⟩
      rw [hnone]
      rfl

def sentBytes (fields : List Field) : Event Unit :=
  ⟨"net.tx".toList, .int 5, .delta, fields, []⟩

def plainFmt : MtcFmt := ⟨[], 512, 4, []⟩

def procField : Field := ⟨"proc".toList, .str (some "ls".toList), 2⟩

theorem statsd_recapture_plain : mtcFormatStatsDString (fun _ => []) plainFmt (sentBytes []) none =
      some "net.tx:5|c\n".toList ∧
    Recaptured (fun _ => none) [] plainFmt (sentBytes []) none "net.tx:5|c\n".toList := by
  have hprint : mtcFormatStatsDString (fun _ => []) plainFmt (sentBytes []) none =
      some "net.tx:5|c\n".toList := by decide +kernel
  refine ⟨hprint, ?_⟩
  exact (statsd_recapture (fun _ => []) (fun _ => none) [] plainFmt (sentBytes []) none
    rfl (by rintro tag ⟨⟩)).2 (Or.inr ⟨by decide, rfl, by decide, by decide⟩) _ hprint

/-- The tag `proc:ls` is captured with a newline after `ls`. -/
theorem statsd_recapture_newline :
    mtcFormatStatsDString (fun _ => []) plainFmt (sentBytes [procField]) none =
      some "net.tx:5|c|#proc:ls\n".toList ∧
    (doMetricBuffer "net.tx:5|c|#proc:ls\n".toList).bind
        (reportCapturedMetric (fun _ => (none : Option Unit)) []) =
      some ⟨"net.tx".toList, .int 5, .delta, [], [⟨"proc".toList, .str (some "ls\n".toList), 0⟩]⟩ ∧
    ¬ Recaptured (fun _ => none) [] plainFmt (sentBytes [procField]) none
      "net.tx:5|c|#proc:ls\n".toList := by
  have hout : (doMetricBuffer "net.tx:5|c|#proc:ls\n".toList).bind
        (reportCapturedMetric (fun _ => (none : Option Unit)) []) =
      some ⟨"net.tx".toList, .int 5, .delta, [],
        [⟨"proc".toList, .str (some "ls\n".toList), 0⟩]⟩ := by decide +kernel
  refine ⟨by decide +kernel, hout, ?_⟩
  rintro ⟨metric, out, hmetric, hreport, -, -, -, htags⟩
  rw [hmetric, bind_some, hreport] at hout
  cases hout
  exact absurd htags (by decide)

end AppView.Statsd

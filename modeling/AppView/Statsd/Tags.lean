import AppView.Statsd.Format

/-!
# The tags in a statsd line

The tags of a metric are offered one after another (`eligible`): those of its captured fields,
the configured ones, those of its own fields. Each takes its name, whether or not it is printed.
**`statsd_tags`**: a line is not longer than the limit, and its tags are whole, have different
names, and each has the value that was offered first for its name.
-/

namespace AppView.Statsd

open List

variable {δ : Type*} (fmt : MtcFmt) (e : Event δ) (fieldFilter : Option (List Char → Bool))

abbrev Tag : Type := List Char × List Char

def fieldTag (f : Field) : Option Tag :=
  if fieldFilter.any (fun re => !re f.name) then none
  else if f.cardinality > fmt.verbosity then none
  else f.value.text.map fun v => (f.name, v)

def metricTags : List Tag :=
  e.capturedFields.filterMap (fieldTag fmt none) ++ fmt.tags ++
    e.fields.filterMap (fieldTag fmt fieldFilter)

def tagList : List Tag → List Char
  | [] => []
  | tag :: tags => tagText tag ++ tags.flatMap fun t => ',' :: tagText t

def tagsText (opened : Bool) : List Tag → List Char
  | [] => []
  | tags => (if opened then ['|', '#'] else [',']) ++ tagList tags

theorem tagsText_concat (opened : Bool) {tags : List Tag} (h : tags ≠ []) (tag : Tag) :
    tagsText opened (tags ++ [tag]) = tagsText opened tags ++ ',' :: tagText tag := by
  obtain ⟨t, ts, rfl⟩ := exists_cons_of_ne_nil h
  simp [tagsText, tagList]

/-! ## What is offered -/

abbrev Offer : Type := List Char × Option (List Char)

def Offer.tag (x : Offer) : Option Tag := x.2.map fun v => (x.1, v)

def shown (f : Field) : Bool :=
  !fieldFilter.any (fun re => !re f.name) && f.cardinality ≤ fmt.verbosity

def offers (fields : List Field) : List Offer :=
  (fields.filter (shown fmt fieldFilter)).map fun f => (f.name, f.value.text)

def eligible : List Offer :=
  offers fmt none e.capturedFields ++ fmt.tags.map (fun t => (t.1, some t.2)) ++
    offers fmt fieldFilter e.fields

theorem filterMap_offers (fields : List Field) :
    (offers fmt fieldFilter fields).filterMap Offer.tag =
      fields.filterMap (fieldTag fmt fieldFilter) := by
  rw [offers, filterMap_map, filterMap_filter]
  congr 1
  funext f
  by_cases hfilter : fieldFilter.any (fun re => !re f.name) = true
  · simp [shown, fieldTag, hfilter]
  · by_cases hcard : f.cardinality ≤ fmt.verbosity
    · simp [shown, fieldTag, hfilter, hcard, Nat.not_lt.2 hcard, Offer.tag]
    · simp [shown, fieldTag, hfilter, hcard, Nat.lt_of_not_le hcard]

theorem filterMap_eligible :
    (eligible fmt e fieldFilter).filterMap Offer.tag = metricTags fmt e fieldFilter := by
  have htags :
      (fmt.tags.map fun t => ((t.1, some t.2) : Offer)).filterMap Offer.tag = fmt.tags := by
    rw [filterMap_map]
    exact filterMap_some
  rw [eligible, filterMap_append, filterMap_append, filterMap_offers, filterMap_offers, htags]
  rfl

def addOffer (maxLen : ℕ) (line : Line) (x : Offer) : Line :=
  match strSetAdd x.1 line with
  | none => line
  | some line =>
    match x.2 with
    | none => line
    | some v => appendStatsdFieldString maxLen (tagText (x.1, v)) line

theorem addStatsdFields_eq (fields : List Field) (line : Line) :
    addStatsdFields fmt fieldFilter fields line =
      (offers fmt fieldFilter fields).foldl (addOffer fmt.maxLen) line := by
  have hfield : ∀ (line : Line) (f : Field), addStatsdField fmt fieldFilter line f =
      if shown fmt fieldFilter f then addOffer fmt.maxLen line (f.name, f.value.text)
      else line := by
    intro line f
    unfold addStatsdField
    by_cases hfilter : fieldFilter.any (fun re => !re f.name) = true
    · simp [shown, hfilter]
    · by_cases hcard : f.cardinality ≤ fmt.verbosity
      · simp only [shown, hfilter, hcard, Nat.not_lt.2 hcard, addOffer, createStatsFieldString]
        cases strSetAdd f.name line <;> cases f.value.text <;> rfl
      · simp [shown, hfilter, hcard, Nat.lt_of_not_le hcard]
  rw [addStatsdFields, offers, foldl_map, foldl_filter]
  congr 1
  funext line f
  exact hfield line f

/-! ## The line while tags are added -/

variable {head : List Char} {maxLen : ℕ} {given : List Offer} {line : Line} {tags : List Tag}

structure Prints (head : List Char) (maxLen : ℕ) (given : List Offer) (line : Line)
    (tags : List Tag) : Prop where
  text : ∃ opened, line.text = head ++ tagsText opened tags
  bytes : line.bytes = line.text.length
  room : line.bytes < maxLen
  added : ∀ name, name ∈ line.added ↔ name ∈ given.map Prod.fst
  sub : tags.Sublist (given.filterMap Offer.tag)
  names : (tags.map Prod.fst).Nodup
  first : ∀ tag ∈ tags, given.find? (·.1 = tag.1) = some (tag.1, some tag.2)

theorem Prints.more (h : Prints head maxLen given line tags) (x : Offer)
    (added : List (List Char)) (hadded : ∀ name, name ∈ added ↔ name ∈ line.added ∨ name = x.1) :
    Prints head maxLen (given ++ [x]) { line with added := added } tags where
  text := h.text
  bytes := h.bytes
  room := h.room
  added name := by simp [hadded, h.added]
  sub := by
    rw [filterMap_append]
    exact h.sub.trans (sublist_append_left _ _)
  names := h.names
  first tag htag := by rw [find?_append, h.first tag htag, Option.some_or]

theorem Prints.append {name value sep : List Char} (h : Prints head maxLen given line tags)
    (hname : name ∉ line.added) (hsep : ∃ opened, line.text ++ sep ++ tagText (name, value) =
      head ++ tagsText opened (tags ++ [(name, value)]))
    (hroom : line.bytes + ((tagText (name, value)).length + sep.length) < maxLen) :
    Prints head maxLen (given ++ [(name, some value)])
      ⟨line.text ++ sep ++ (tagText (name, value)).take maxLen,
        line.bytes + ((tagText (name, value)).length + sep.length), line.added ++ [name]⟩
      (tags ++ [(name, value)]) := by
  have hwhole : (tagText (name, value)).take maxLen = tagText (name, value) :=
    take_of_length_le (by omega)
  have hnew : given.find? (·.1 = name) = none := by
    rw [h.added, mem_map] at hname
    exact find?_eq_none.2 fun x hx heq => hname ⟨x, hx, by simpa using heq⟩
  have hmore := h.more (name, some value) (line.added ++ [name]) (by simp)
  refine ⟨by rw [hwhole]; exact hsep, ?_, hroom, hmore.added, ?_, ?_, ?_⟩
  · rw [hwhole, h.bytes]
    simp only [length_append]
    omega
  · rw [filterMap_append]
    exact h.sub.append (Sublist.refl [(name, value)])
  · rw [map_append, nodup_append]
    refine ⟨h.names, by simp, ?_⟩
    rintro a ha b hb rfl
    obtain ⟨tag, htag, hname⟩ := mem_map.1 ha
    have hfirst := h.first tag htag
    rw [hname, mem_singleton.1 hb, hnew] at hfirst
    cases hfirst
  · intro tag htag
    rcases mem_append.1 htag with htag | htag
    · exact hmore.first tag htag
    · rw [mem_singleton.1 htag, find?_append, hnew, Option.none_or]
      simp

theorem Prints.addOffer (h : Prints head maxLen given line tags) (x : Offer) :
    ∃ tags', Prints head maxLen (given ++ [x]) (addOffer maxLen line x) tags' := by
  obtain ⟨name, value⟩ := x
  rw [Statsd.addOffer, strSetAdd]
  by_cases hname : name ∈ line.added
  · simp only [if_pos hname]
    exact ⟨tags, h.more _ line.added (by simp only [iff_self_or]; rintro _ rfl; exact hname)⟩
  · simp only [if_neg hname]
    have hskip := h.more (name, value) (line.added ++ [name]) (by simp)
    cases value with
    | none => exact ⟨tags, hskip⟩
    | some value =>
      obtain ⟨opened, htext⟩ := h.text
      simp only [appendStatsdFieldString]
      split_ifs with hone hfull hfull
      · exact ⟨tags, hskip⟩
      · -- the first name: nothing was printed before
        have hnil : tags = [] := by
          refine eq_nil_iff_forall_not_mem.2 fun tag htag => ?_
          have hmem := (h.added tag.1).2 (mem_map_of_mem (mem_of_find?_eq_some (h.first tag htag)))
          have hadded : line.added = [] := by simpa using hone
          rw [hadded] at hmem
          cases hmem
        refine ⟨_, h.append hname ⟨true, ?_⟩ (Nat.lt_of_not_le hfull)⟩
        rw [htext, hnil]
        simp [tagsText, tagList]
      · exact ⟨tags, hskip⟩
      · by_cases hnil : tags = []
        · refine ⟨_, h.append hname ⟨false, ?_⟩ (Nat.lt_of_not_le hfull)⟩
          rw [htext, hnil]
          simp [tagsText, tagList]
        · refine ⟨_, h.append hname ⟨opened, ?_⟩ (Nat.lt_of_not_le hfull)⟩
          rw [htext, tagsText_concat opened hnil]
          simp

theorem Prints.foldl (h : Prints head maxLen given line tags) (offers : List Offer) :
    ∃ tags', Prints head maxLen (given ++ offers) (offers.foldl (Statsd.addOffer maxLen) line)
      tags' := by
  induction offers generalizing given line tags with
  | nil => exact ⟨tags, by rwa [append_nil]⟩
  | cons x offers ih =>
    obtain ⟨tags', h'⟩ := h.addOffer x
    have hrest := ih h'
    rwa [append_assoc] at hrest

/-- The line after all tags were offered. -/
def offered (printFlt : δ → List Char) : Line :=
  (eligible fmt e fieldFilter).foldl (addOffer fmt.maxLen)
    ⟨lineHead printFlt fmt e, (lineHead printFlt fmt e).length, []⟩

section Format

variable {fmt e fieldFilter} {printFlt : δ → List Char} {out : List Char}

theorem mtcFormatStatsDString_offered
    (h : mtcFormatStatsDString printFlt fmt e fieldFilter = some out) :
    (lineHead printFlt fmt e).length < fmt.maxLen ∧
      out = (offered fmt e fieldFilter printFlt).text ++ ['\n'] := by
  unfold mtcFormatStatsDString at h
  dsimp only at h
  split_ifs at h with hroom
  cases h
  have hcustom : ∀ line, addStatsdCustomFields fmt line =
      (fmt.tags.map fun t => ((t.1, some t.2) : Offer)).foldl (addOffer fmt.maxLen) line := by
    intro line
    rw [foldl_map]
    rfl
  rw [offered, eligible, foldl_append, foldl_append, ← addStatsdFields_eq, ← hcustom,
    ← addStatsdFields_eq]
  exact ⟨not_le.1 hroom, rfl⟩

theorem mtcFormatStatsDString_prints
    (h : mtcFormatStatsDString printFlt fmt e fieldFilter = some out) :
    out = (offered fmt e fieldFilter printFlt).text ++ ['\n'] ∧
      ∃ tags, Prints (lineHead printFlt fmt e) fmt.maxLen (eligible fmt e fieldFilter)
        (offered fmt e fieldFilter printFlt) tags := by
  obtain ⟨hroom, hout⟩ := mtcFormatStatsDString_offered h
  have hstart : Prints (lineHead printFlt fmt e) fmt.maxLen []
      ⟨lineHead printFlt fmt e, (lineHead printFlt fmt e).length, []⟩ [] :=
    ⟨⟨true, by simp [tagsText]⟩, rfl, hroom, by simp, Sublist.refl _, nodup_nil, by simp⟩
  exact ⟨hout, hstart.foldl (eligible fmt e fieldFilter)⟩

end Format

/-- `mtcFormatStatsDString` with the memory it takes: `end` has `max_len + 1` bytes, an `unsigned`,
and so has the array `tag` of each list that is not NULL, for which the stack has `stack` bytes.
No result if one of them is too small; NULL is an empty list here. -/
def formatInBuffer (stack : ℕ) (printFlt : δ → List Char) (fmt : MtcFmt) (e : Event δ)
    (fieldFilter : Option (List Char → Bool)) : Option (Option (List Char)) :=
  let size := (fmt.maxLen + 1) % 2 ^ 32
  let out := mtcFormatStatsDString printFlt fmt e fieldFilter
  if ∀ s ∈ out, s.length < size ∧
    (e.capturedFields ++ e.fields ≠ [] ∨ fmt.tags ≠ [] → size ≤ stack) then some out else none

/-- NULL, or a line of at most `max_len` characters: the head, some of the tags offered, each of
them whole, and the newline. No two tags have a common name, and a tag has the value of the first
eligible field of its name. -/
def Bounded (printFlt : δ → List Char) (fmt : MtcFmt) (e : Event δ)
    (fieldFilter : Option (List Char → Bool)) (out : Option (List Char)) : Prop :=
  ∀ line ∈ out, line.length ≤ fmt.maxLen ∧
    ∃ opened tags, line = lineHead printFlt fmt e ++ tagsText opened tags ++ ['\n'] ∧
      (tags.map Prod.fst).Nodup ∧
      ∀ tag ∈ tags, (eligible fmt e fieldFilter).find? (·.1 = tag.1) = some (tag.1, some tag.2)

theorem mtcFormatStatsDString_bounded (printFlt : δ → List Char) :
    Bounded printFlt fmt e fieldFilter (mtcFormatStatsDString printFlt fmt e fieldFilter) := by
  intro out hout
  obtain ⟨rfl, tags, h⟩ := mtcFormatStatsDString_prints hout
  obtain ⟨opened, htext⟩ := h.text
  refine ⟨?_, opened, tags, by rw [htext], h.names, h.first⟩
  rw [length_append, ← h.bytes]
  exact h.room

/-- **Bound and precedence** hold exactly if the head alone is too long, or `max_len + 1` does not
wrap and the stack has room for an array of so many bytes, where there is a list. -/
theorem statsd_tags (stack : ℕ) (printFlt : δ → List Char) {fmt : MtcFmt}
    (hmax : fmt.maxLen < 2 ^ 32) (e : Event δ) (fieldFilter : Option (List Char → Bool)) :
    (∃ out, formatInBuffer stack printFlt fmt e fieldFilter = some out ∧
      Bounded printFlt fmt e fieldFilter out) ↔
    fmt.maxLen ≤ (lineHead printFlt fmt e).length ∨ fmt.maxLen + 1 < 2 ^ 32 ∧
      (e.capturedFields ++ e.fields ≠ [] ∨ fmt.tags ≠ [] → fmt.maxLen + 1 ≤ stack) := by
  have hbounded := mtcFormatStatsDString_bounded fmt e fieldFilter printFlt
  rw [formatInBuffer]
  constructor
  · rintro ⟨out, hout, -⟩
    split_ifs at hout with hfits
    refine or_iff_not_imp_left.2 fun hhead => ?_
    obtain ⟨hsize, hstack⟩ := hfits _ (if_neg hhead)
    have hwrap : fmt.maxLen + 1 < 2 ^ 32 := by
      refine lt_of_le_of_ne hmax fun h => ?_
      rw [h, Nat.mod_self] at hsize
      exact absurd hsize (Nat.not_lt_zero _)
    rw [Nat.mod_eq_of_lt hwrap] at hstack
    exact ⟨hwrap, hstack⟩
  · intro hroom
    refine ⟨_, if_pos fun s hs => ?_, hbounded⟩
    rcases hroom with hhead | ⟨hwrap, hstack⟩
    · rw [mtcFormatStatsDString, if_pos hhead] at hs
      cases hs
    · rw [Nat.mod_eq_of_lt hwrap]
      exact ⟨Nat.lt_succ_of_le (hbounded s hs).1, hstack⟩

def counted : Event Unit :=
  ⟨['m'], .int 1, .delta, [⟨['a'], .str (some ['2']), 0⟩], []⟩

/-- The configured tag comes before the field of its name. -/
theorem statsd_tags_counted :
    formatInBuffer 8192 (fun _ => []) ⟨[], 16, 9, [(['a'], ['1'])]⟩ counted none =
        some (some "m:1|c|#a:1\n".toList) ∧
      ∃ out, formatInBuffer 8192 (fun _ => []) ⟨[], 16, 9, [(['a'], ['1'])]⟩ counted none =
          some out ∧ Bounded (fun _ => []) ⟨[], 16, 9, [(['a'], ['1'])]⟩ counted none out :=
  ⟨by decide +kernel, (@statsd_tags Unit 8192 (fun _ => []) ⟨[], 16, 9, [(['a'], ['1'])]⟩
    (by decide) counted none).2 (.inr ⟨by decide, fun _ => by decide⟩)⟩

/-- With the largest `unsigned` as the limit the buffer has no bytes. -/
theorem statsd_tags_no_buffer :
    formatInBuffer (2 ^ 33) (fun _ => []) ⟨[], 2 ^ 32 - 1, 9, []⟩ counted none = none := by
  decide +kernel

/-! ## The separators -/

theorem addOffer_fits {name v : List Char} (hadded : name ∉ line.added) (hne : line.added ≠ [])
    (hroom : line.bytes + ((tagText (name, v)).length + 1) < maxLen) :
    line.text ++ [','] <+: (addOffer maxLen line (name, some v)).text := by
  rw [addOffer, strSetAdd, if_neg hadded]
  have hlen : (line.added ++ [name]).length ≠ 1 := by simp [hne]
  simp only [appendStatsdFieldString, if_neg hlen, if_neg (not_le.2 hroom)]
  exact prefix_append _ _

theorem text_addOffer (line : Line) (x : Offer) : line.text <+: (addOffer maxLen line x).text := by
  unfold addOffer strSetAdd
  split_ifs
  · exact prefix_rfl
  · cases x.2 with
    | none => exact prefix_rfl
    | some v =>
      dsimp only [appendStatsdFieldString]
      split_ifs <;> simp

theorem text_foldl (offers : List Offer) (line : Line) :
    line.text <+: (offers.foldl (addOffer maxLen) line).text := by
  induction offers generalizing line with
  | nil => exact prefix_rfl
  | cons x offers ih => exact (text_addOffer line x).trans (ih _)

/-- An offer that adds no tag to the line takes its name. -/
theorem addOffer_skips {x : Offer} (hne : line.added ≠ [])
    (hskip : ∀ v, x.2 = some v → x.1 ∉ line.added →
      maxLen ≤ line.bytes + ((tagText (x.1, v)).length + 1)) :
    ∃ added, addOffer maxLen line x = { line with added := added } ∧ added ≠ [] ∧
      ∀ name, name ∈ added ↔ name ∈ line.added ∨ name = x.1 := by
  rw [addOffer, strSetAdd]
  by_cases hname : x.1 ∈ line.added
  · rw [if_pos hname]
    exact ⟨_, rfl, hne, fun name => by simp only [iff_self_or]; rintro rfl; exact hname⟩
  · rw [if_neg hname]
    refine ⟨line.added ++ [x.1], ?_, by simp, by simp⟩
    have hlen : (line.added ++ [x.1]).length ≠ 1 := by simp [hne]
    cases hv : x.2 with
    | none => rfl
    | some v => simp only [appendStatsdFieldString, if_neg hlen, if_pos (hskip v hv hname)]

/-- With a name in the set, the first tag is introduced by a comma, if there is one. -/
theorem foldl_comma (offers : List Offer) (line : Line) (hne : line.added ≠ []) :
    let text := (offers.foldl (addOffer maxLen) line).text
    text = line.text ∧ (∀ tag : Tag, tag.1 ∉ line.added →
        offers.find? (·.1 = tag.1) = some (tag.1, some tag.2) →
        maxLen ≤ line.bytes + ((tagText tag).length + 1)) ∨
      line.text ++ [','] <+: text ∧ ∃ tag : Tag, tag.1 ∉ line.added ∧
        offers.find? (·.1 = tag.1) = some (tag.1, some tag.2) ∧
        line.bytes + ((tagText tag).length + 1) < maxLen := by
  induction offers generalizing line with
  | nil => exact .inl ⟨rfl, fun tag _ h => by cases h⟩
  | cons x offers ih =>
    by_cases hskip : ∀ v, x.2 = some v → x.1 ∉ line.added →
        maxLen ≤ line.bytes + ((tagText (x.1, v)).length + 1)
    · obtain ⟨added, hline, hne', hadded⟩ := addOffer_skips hne hskip
      have hfind : ∀ tag : Tag, tag.1 ∉ added →
          ((x :: offers).find? (·.1 = tag.1) = some (tag.1, some tag.2) ↔
            offers.find? (·.1 = tag.1) = some (tag.1, some tag.2)) := by
        intro tag htag
        rw [hadded, not_or] at htag
        rw [find?_cons_of_neg (by simpa using Ne.symm htag.2)]
      rw [foldl_cons, hline]
      rcases ih { line with added := added } hne' with
        ⟨htext, hall⟩ | ⟨htext, tag, hnew, hfirst, hfits⟩
      · refine .inl ⟨htext, fun tag hnew hfirst => ?_⟩
        by_cases htag : tag.1 ∈ added
        · have hx : x.1 = tag.1 := (((hadded _).1 htag).resolve_left hnew).symm
          rw [find?_cons_of_pos (by simpa using hx)] at hfirst
          have hv : x.2 = some tag.2 := by rw [Option.some.inj hfirst]
          have := hskip tag.2 hv (hx ▸ hnew)
          rwa [hx] at this
        · exact hall tag htag ((hfind tag htag).1 hfirst)
      · exact .inr ⟨htext, tag, fun h => hnew ((hadded _).2 (.inl h)), (hfind tag hnew).2 hfirst,
          hfits⟩
    · push Not at hskip
      obtain ⟨v, hv, hname, hfits⟩ := hskip
      obtain ⟨name, value⟩ := x
      cases hv
      refine .inr ⟨(addOffer_fits hname hne hfits).trans (text_foldl offers _), (name, v), hname,
        ?_, hfits⟩
      rw [find?_cons_of_pos (by simp)]

/-- The first offer opens the tags, if any of them is in the line: it is printed behind `|#`, or no
other one has a value that fits behind a comma, as the first of its name. -/
def Opens (maxLen : ℕ) (head : List Char) : List Offer → Prop
  | [] => True
  | x :: offers => (∃ v, x.2 = some v ∧ head.length + ((tagText (x.1, v)).length + 2) < maxLen) ∨
    ∀ tag : Tag, tag.1 ≠ x.1 → offers.find? (·.1 = tag.1) = some (tag.1, some tag.2) →
      maxLen ≤ head.length + ((tagText tag).length + 1)

/-- **The grammar of a line** holds exactly if the first offer opens the tags: whether a tag is
introduced by `|#` depends on the number of names that were offered, not of tags in the line. -/
theorem statsd_grammar {printFlt : δ → List Char} {fmt : MtcFmt} {e : Event δ}
    {fieldFilter : Option (List Char → Bool)} {out : List Char}
    (h : mtcFormatStatsDString printFlt fmt e fieldFilter = some out) :
    (∃ tags, out = lineHead printFlt fmt e ++ tagsText true tags ++ ['\n']) ↔
      Opens fmt.maxLen (lineHead printFlt fmt e) (eligible fmt e fieldFilter) := by
  obtain ⟨rfl, tags, hprints⟩ := mtcFormatStatsDString_prints h
  obtain ⟨opened, htext⟩ := hprints.text
  set head := lineHead printFlt fmt e
  have hline : (offered fmt e fieldFilter printFlt) =
      (eligible fmt e fieldFilter).foldl (addOffer fmt.maxLen) ⟨head, head.length, []⟩ := rfl
  rcases heligible : eligible fmt e fieldFilter with _ | ⟨⟨name, value⟩, rest⟩
  · rw [hline, heligible]
    exact iff_of_true ⟨[], by simp [tagsText]⟩ trivial
  rw [heligible, foldl_cons] at hline
  by_cases hfirst : ∃ v, value = some v ∧
      head.length + ((tagText (name, v)).length + 2) < fmt.maxLen
  · -- the first offer writes `|#`
    refine iff_of_true ?_ (.inl hfirst)
    obtain ⟨v, rfl, hroom⟩ := hfirst
    have hgrows := @text_foldl fmt.maxLen rest (addOffer fmt.maxLen ⟨head, head.length, []⟩
      (name, some v))
    rw [← hline, htext] at hgrows
    obtain ⟨more, hmore⟩ := hgrows
    simp only [addOffer, strSetAdd, appendStatsdFieldString] at hmore
    rw [if_neg (by simp)] at hmore
    simp only [nil_append, length_singleton, if_true, if_neg (not_le.2 hroom), append_assoc,
      append_cancel_left_eq] at hmore
    rw [htext]
    cases opened with
    | true => exact ⟨tags, rfl⟩
    | false => cases tags <;> cases hmore
  · have hskip : addOffer fmt.maxLen ⟨head, head.length, []⟩ (name, value) =
        ⟨head, head.length, [name]⟩ := by
      cases value with
      | none => rfl
      | some v =>
        have hfull : head.length + ((tagText (name, v)).length + 2) ≥ fmt.maxLen :=
          not_lt.1 fun hlt => hfirst ⟨v, rfl, hlt⟩
        simp [addOffer, strSetAdd, appendStatsdFieldString, hfull]
    rw [hskip] at hline
    have hcomma := @foldl_comma fmt.maxLen rest ⟨head, head.length, [name]⟩ (cons_ne_nil _ _)
    rw [← hline] at hcomma
    simp only [mem_singleton] at hcomma
    rcases hcomma with ⟨hsame, hall⟩ | ⟨hcomma, tag, hname, hfind, hfits⟩
    · exact iff_of_true ⟨[], by rw [hsame]; simp [tagsText]⟩ (.inr hall)
    · refine iff_of_false ?_ ?_
      · rintro ⟨tags', htags⟩
        rw [append_cancel_right_eq] at htags
        rw [htags, prefix_append_right_inj] at hcomma
        cases tags' with
        | nil => exact absurd hcomma (by simp [tagsText])
        | cons t ts => simp [tagsText] at hcomma
      · rintro (hopens | hall)
        · exact hfirst hopens
        · exact absurd (hall tag hname hfind) (not_le.2 hfits)

theorem statsd_grammar_counted : ∃ tags, "m:1|c|#a:2\n".toList =
      lineHead (fun _ => []) ⟨[], 16, 9, []⟩ counted ++ tagsText true tags ++ ['\n'] :=
  (@statsd_grammar Unit (fun _ => []) ⟨[], 16, 9, []⟩ counted none _ (by decide +kernel)).2
    (.inl ⟨_, rfl, by decide +kernel⟩)

/-- A captured field without a value takes the place of the first tag. -/
theorem statsd_grammar_comma : mtcFormatStatsDString (fun _ => []) ⟨[], 16, 9, []⟩
      { counted with capturedFields := [⟨['b'], .str none, 0⟩] } none =
        some "m:1|c,a:2\n".toList := by
  decide +kernel

end AppView.Statsd

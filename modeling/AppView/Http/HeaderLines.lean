import AppView.Http.HeaderBlock
import AppView.Http.Report

/-!
# The lines of a header as `httpFields` reads them

`strtok_r` cuts the copy of a header into lines, `strcasestr` decides what a line is by what it
contains anywhere, and a value begins two places behind the first colon of its line.

A header line is a name, a colon and a value between white space. **`header_fields`** says for
which blocks the fields of an event are those of the lines with the right names: where no line
contains such a name with a colon but as its own, and one character of white space stands behind
the colon and none at the end.
-/

namespace AppView

open List

/-! ## Strings -/

theorem hasCase_iff {hay needle : List UInt8} :
    hasCase hay needle = true ↔ needle.map lower <:+: hay.map lower := by
  rw [hasCase, any_eq_true]
  constructor
  · rintro ⟨t, ht, hpre⟩
    rw [mem_tails] at ht
    have hfront : needle.map lower <+: t.map lower := isPrefixOf_iff_prefix.mp hpre
    exact hfront.isInfix.trans (ht.map lower).isInfix
  · rintro ⟨x, y, hxy⟩
    rw [append_assoc] at hxy
    obtain ⟨u, v, rfl, -, hv⟩ := map_eq_append_iff.mp hxy.symm
    refine ⟨v, (mem_tails _ _).mpr (suffix_append u v), ?_⟩
    rw [hv]
    exact isPrefixOf_iff_prefix.mpr (prefix_append _ _)

theorem lower_eq {c d : UInt8} (hd : d < 97) (h : lower c = d) : c = d := by
  rw [lower] at h
  split_ifs at h with hc
  · exfalso
    rw [UInt8.le_iff_toNat_le, UInt8.le_iff_toNat_le] at hc
    rw [UInt8.lt_iff_toNat_lt, ← h, UInt8.toNat_add] at hd
    have h65 : (65 : UInt8).toNat = 65 := rfl
    have h90 : (90 : UInt8).toNat = 90 := rfl
    have h32 : (32 : UInt8).toNat = 32 := rfl
    have h97 : (97 : UInt8).toNat = 97 := rfl
    omega
  · exact h

theorem colon_mem_of_lower {l : List UInt8} (h : 58 ∈ l.map lower) : 58 ∈ l := by
  obtain ⟨c, hc, hlower⟩ := mem_map.mp h
  rwa [lower_eq (by decide) hlower] at hc

theorem getElem?_cutAt (buf : List UInt8) (places : List ℕ) (i : ℕ) :
    (cutAt buf places)[i]? = buf[i]?.map fun b => if i ∈ places then 0 else b := by
  rw [cutAt, getElem?_mapIdx]

theorem textAt_cutAt {buf : List UInt8} {places : List ℕ} {s e : ℕ} (hse : s ≤ e)
    (he : e < buf.length) (hcut : e ∈ places) (hkeep : ∀ i, s ≤ i → i < e → i ∉ places)
    (hne : ∀ c ∈ (buf.take e).drop s, c ≠ 0) :
    textAt (cutAt buf places) s = (buf.take e).drop s := by
  have hlen : (cutAt buf places).length = buf.length := by rw [cutAt, length_mapIdx]
  have hnul : (cutAt buf places)[e]? = some 0 := by
    rw [getElem?_cutAt, getElem?_eq_getElem he, Option.map_some, if_pos hcut]
  have hsplit : (cutAt buf places).drop s = (buf.take e).drop s ++
      0 :: (cutAt buf places).drop (e + 1) := by
    have hdrop : (cutAt buf places).drop e = 0 :: (cutAt buf places).drop (e + 1) := by
      rw [drop_eq_getElem_cons (by omega)]
      rw [getElem?_eq_getElem (by omega)] at hnul
      rw [Option.some.inj hnul]
    have hsame : ((cutAt buf places).take e).drop s = (buf.take e).drop s := by
      refine ext_getElem? fun i => ?_
      rw [getElem?_drop, getElem?_drop, getElem?_take, getElem?_take]
      split_ifs with hlt
      · rw [getElem?_cutAt]
        cases buf[s + i]? with
        | none => rfl
        | some b => rw [Option.map_some, if_neg (hkeep (s + i) (by omega) hlt)]
      · rfl
    rw [← hdrop, ← hsame, ← drop_append_of_le_length (by
      rw [length_take]
      omega), take_append_drop]
  rw [textAt, hsplit, cStr_append_nul hne]

end AppView

namespace AppView.Http

open List

/-! ## Lines and their places -/

structure PlainLine (l : List UInt8) : Prop where
  ne_nil : l ≠ []
  plain : ∀ c ∈ l, c ≠ 0 ∧ c ∉ crlf

-- over the bytes of the line, not over all bytes
instance (l : List UInt8) : Decidable (PlainLine l) :=
  decidable_of_iff (l ≠ [] ∧ l.all (fun c => c ≠ 0 ∧ c ∉ crlf) = true)
    ⟨fun h => ⟨h.1, by simpa using h.2⟩, fun h => ⟨h.ne_nil, by simpa using h.plain⟩⟩

def HeaderBlock.Plain (b : HeaderBlock) : Prop := ∀ l ∈ b.start :: b.lines, PlainLine l

def linePlaces : ℕ → List (List UInt8) → List (ℕ × ℕ)
  | _, [] => []
  | at_, l :: ls => (at_, at_ + l.length) :: linePlaces (at_ + l.length + 2) ls

variable {l ds rest : List UInt8} {ls : List (List UInt8)} {at_ : ℕ} {t : ℕ × ℕ}
    {b : HeaderBlock} {name : String} {env : ReportEnv} {f : EventField}

theorem tokensFrom_inside (h : ∀ c ∈ l, c ≠ 0 ∧ c ∉ crlf) (s at_ : ℕ) (rest : List UInt8) :
    tokensFrom crlf (some s) at_ (l ++ rest) = tokensFrom crlf (some s) (at_ + l.length) rest := by
  induction l generalizing at_ with
  | nil => rfl
  | cons c l ih =>
    obtain ⟨hnul, hsep⟩ := h c mem_cons_self
    rw [cons_append, tokensFrom, if_neg hnul, if_neg hsep, Option.getD_some,
      ih fun d hd => h d (mem_cons_of_mem c hd), length_cons, Nat.add_assoc,
      Nat.add_comm 1]

theorem tokensFrom_line (h : PlainLine l) (at_ : ℕ) (rest : List UInt8) :
    tokensFrom crlf none at_ (l ++ (crlf ++ rest)) =
      (at_, at_ + l.length) :: tokensFrom crlf none (at_ + l.length + 2) rest := by
  obtain ⟨c, l, rfl⟩ := exists_cons_of_ne_nil h.ne_nil
  obtain ⟨hnul, hsep⟩ := h.plain c mem_cons_self
  rw [cons_append, tokensFrom, if_neg hnul, if_neg hsep, Option.getD_none,
    tokensFrom_inside fun d hd => h.plain d (mem_cons_of_mem c hd)]
  have hlen : at_ + 1 + l.length = at_ + (c :: l).length := by
    rw [length_cons]
    omega
  rw [hlen]
  simp [crlf, tokensFrom]

theorem tokens_encode (h : ∀ l ∈ ls, PlainLine l) (at_ : ℕ) :
    tokensFrom crlf none at_ (encode ls ++ [0]) = linePlaces at_ ls := by
  induction ls generalizing at_ with
  | nil => rfl
  | cons l ls ih =>
    rw [encode_cons_append]
    change tokensFrom crlf none at_ (l ++ (crlf ++ (encode ls ++ [0]))) = _
    rw [tokensFrom_line (h l mem_cons_self), ih fun m hm => h m (mem_cons_of_mem l hm)]
    rfl

theorem mem_linePlaces (ht : t ∈ linePlaces at_ ls) :
    ∃ before l after, ls = before ++ l :: after ∧ t.1 = at_ + (encode before).length ∧
      t.2 = t.1 + l.length := by
  induction ls generalizing at_ with
  | nil => cases ht
  | cons m ls ih =>
    rcases mem_cons.mp ht with rfl | ht
    · exact ⟨[], m, ls, rfl, rfl, rfl⟩
    · obtain ⟨before, l, after, rfl, hstart, hend⟩ := ih ht
      refine ⟨m :: before, l, after, rfl, ?_, hend⟩
      rw [hstart, encode_cons, length_line]
      omega

theorem place_mem (at_ : ℕ) (before : List (List UInt8)) (l : List UInt8)
    (after : List (List UInt8)) :
    (at_ + (encode before).length, at_ + (encode before).length + l.length) ∈
      linePlaces at_ (before ++ l :: after) := by
  induction before generalizing at_ with
  | nil => exact mem_cons_self
  | cons m before ih =>
    have hstart : at_ + (encode (m :: before)).length =
        at_ + m.length + 2 + (encode before).length := by
      rw [encode_cons, length_line]
      omega
    rw [hstart]
    exact mem_cons_of_mem _ (ih _)

theorem linePlaces_ge (ht : t ∈ linePlaces at_ ls) : at_ ≤ t.1 ∧ t.1 ≤ t.2 := by
  obtain ⟨before, l, after, -, hstart, hend⟩ := mem_linePlaces ht
  omega

theorem linePlaces_apart {t' : ℕ × ℕ} (ht : t ∈ linePlaces at_ ls) (ht' : t' ∈ linePlaces at_ ls) :
    t = t' ∨ t.2 < t'.1 ∨ t'.2 < t.1 := by
  induction ls generalizing at_ with
  | nil => cases ht
  | cons m ls ih =>
    rcases mem_cons.mp ht with rfl | ht
    · rcases mem_cons.mp ht' with rfl | ht'
      · exact .inl rfl
      · have hge := (linePlaces_ge ht').1
        refine .inr (.inl ?_)
        omega
    · rcases mem_cons.mp ht' with rfl | ht'
      · have hge := (linePlaces_ge ht).1
        refine .inr (.inr ?_)
        omega
      · exact ih ht ht'

/-! ## The copy of a header -/

def HeaderBlock.text (b : HeaderBlock) : List UInt8 := b.header ++ [0]

theorem encode_ne_nul (h : ∀ l ∈ ls, PlainLine l) : ∀ c ∈ encode ls, c ≠ 0 := by
  intro c hc
  rw [encode, mem_flatten] at hc
  obtain ⟨m, hm, hc⟩ := hc
  obtain ⟨l, hl, rfl⟩ := mem_map.mp hm
  rcases mem_append.mp hc with hc | hc
  · exact ((h l hl).plain c hc).1
  · have hend : ∀ d ∈ httpEnd, d ≠ 0 := by simp [httpEnd]
    exact hend c hc

theorem headerCopy_text (h : b.Plain) : headerCopy b.text = b.text := by
  have hstr : cStr b.text = b.header := cStr_append_nul (encode_ne_nul h)
  have hlen : b.text.length = (b.header ++ [0]).length := rfl
  rw [headerCopy, hstr, strncpy, hlen, length_append, length_singleton,
    replicate_succ, HeaderBlock.text, append_cons]
  have hcount : b.header.length + 1 = (b.header ++ [(0 : UInt8)]).length := by
    rw [length_append, length_singleton]
  rw [hcount, take_left]

theorem tokens_text (h : b.Plain) :
    tokens crlf b.text = (0, b.start.length) :: linePlaces (b.start.length + 2) b.lines := by
  rw [tokens, HeaderBlock.text, HeaderBlock.header, tokens_encode h, linePlaces]
  simp

structure At (b : HeaderBlock) (t : ℕ × ℕ) (l : List UInt8) : Prop where
  mem : l ∈ b.lines
  stop : t.2 = t.1 + l.length
  text : ∃ x y, b.text = x ++ (l ++ (httpEnd ++ y)) ∧ x.length = t.1

theorem at_place {before after : List (List UInt8)} (hlines : b.lines = before ++ l :: after) :
    At b (b.start.length + 2 + (encode before).length,
      b.start.length + 2 + (encode before).length + l.length) l := by
  refine ⟨by simp [hlines], rfl, encode (b.start :: before), encode after ++ [0], ?_, ?_⟩
  · rw [HeaderBlock.text, HeaderBlock.header, hlines, encode_cons, encode_cons,
      show before ++ l :: after = before ++ ([l] ++ after) from rfl]
    simp [encode]
  · rw [encode_cons, length_line]

theorem line_at (ht : t ∈ linePlaces (b.start.length + 2) b.lines) : ∃ l, At b t l := by
  obtain ⟨before, l, after, hlines, hstart, hstop⟩ := mem_linePlaces ht
  have hplace : t = (b.start.length + 2 + (encode before).length,
      b.start.length + 2 + (encode before).length + l.length) :=
    Prod.ext hstart (hstart ▸ hstop)
  exact ⟨l, hplace ▸ at_place hlines⟩

theorem at_of_mem (hl : l ∈ b.lines) : ∃ t ∈ linePlaces (b.start.length + 2) b.lines, At b t l := by
  obtain ⟨before, after, hlines⟩ := append_of_mem hl
  exact ⟨_, hlines ▸ place_mem (b.start.length + 2) before l after, at_place hlines⟩

theorem At.slice (h : At b t l) : (b.text.take t.2).drop t.1 = l := by
  obtain ⟨x, y, htext, hx⟩ := h.text
  have hstop : t.2 = (x ++ l).length := by rw [length_append, hx, h.stop]
  rw [htext, ← append_assoc, hstop, take_left, ← hx, drop_left]

theorem At.stop_lt (h : At b t l) : t.2 < b.text.length := by
  obtain ⟨x, y, htext, hx⟩ := h.text
  have htwo : httpEnd.length = 2 := rfl
  rw [htext, length_append, length_append, length_append, h.stop]
  omega

theorem At.textAt (hb : b.Plain) (h : At b t l) {places : List ℕ} {k n : ℕ} (hkn : k ≤ n)
    (hn : n ≤ l.length) (hcut : t.1 + n ∈ places)
    (hkeep : ∀ i, t.1 + k ≤ i → i < t.1 + n → i ∉ places) :
    AppView.textAt (cutAt b.text places) (t.1 + k) = (l.take n).drop k := by
  have hlt := h.stop_lt
  have hstop := h.stop
  have hslice : (b.text.take (t.1 + n)).drop (t.1 + k) = (l.take n).drop k := by
    have hl := h.slice
    have htake : b.text.take (t.1 + n) = (b.text.take t.2).take (t.1 + n) := by
      rw [take_take, Nat.min_eq_left (by omega)]
    rw [htake, ← drop_drop, ← hl]
    congr 1
    rw [drop_take, Nat.add_sub_cancel_left]
  rw [textAt_cutAt (by omega) (by omega) hcut hkeep, hslice]
  intro c hc
  rw [hslice] at hc
  have hplain := (hb l (mem_cons_of_mem _ h.mem)).plain
  exact (hplain c (mem_of_mem_take (mem_of_mem_drop hc))).1

/-! ## What a line is -/

def headerName (l : List UInt8) : List UInt8 := l.takeWhile (· ≠ 58)

def named (l : List UInt8) (name : String) : Bool := 58 ∈ l && sameCase (headerName l) (bytes name)

def isOws (c : UInt8) : Bool := c = 32 || c = 9

def trim (s : List UInt8) : List UInt8 :=
  ((s.dropWhile isOws).reverse.dropWhile isOws).reverse

def headerValue (l : List UInt8) : List UInt8 := trim (l.drop (l.idxOf 58 + 1))

inductive Attribute where
  | host | userAgent | clientIp | appview
  deriving DecidableEq

namespace Attribute

def header : Attribute → String
  | host => "Host"
  | userAgent => "User-Agent"
  | clientIp => "X-Forwarded-For"
  | appview => "x-appview"

def field : Attribute → String
  | host => "http_host"
  | userAgent => "http_user_agent"
  | clientIp => "http_client_ip"
  | appview => "x-appview"

def verbosity : Attribute → ℕ
  | host => 1
  | userAgent => 5
  | clientIp => 5
  | appview => 5

end Attribute

def soughtNames : List String :=
  ["Host", "User-Agent", "X-Forwarded-For", "Content-Length", "x-appview"]

theorem header_mem_soughtNames (a : Attribute) : a.header ∈ soughtNames := by
  cases a <;> decide

theorem headerName_colon (h : 58 ∈ l) : ∃ y, l = headerName l ++ 58 :: y := by
  induction l with
  | nil => cases h
  | cons c l ih =>
    by_cases hc : c = 58
    · subst hc
      exact ⟨l, rfl⟩
    · obtain ⟨y, hy⟩ := ih ((mem_cons.mp h).resolve_left (Ne.symm hc))
      refine ⟨y, ?_⟩
      rw [headerName, takeWhile_cons_of_pos (by simpa using hc), cons_append]
      exact congrArg (c :: ·) hy

theorem hasCase_of_named (h : named l name = true) : hasCase l (bytes name ++ [58]) = true := by
  rw [named, Bool.and_eq_true, decide_eq_true_eq, sameCase, beq_iff_eq] at h
  obtain ⟨y, hy⟩ := headerName_colon h.1
  rw [hasCase_iff, map_append, ← h.2]
  refine ⟨[], y.map lower, ?_⟩
  conv_rhs => rw [hy]
  rw [map_append, map_cons, nil_append, append_assoc]
  rfl

def OwnNames (l : List UInt8) : Prop :=
  ∀ name ∈ soughtNames, hasCase l (bytes name ++ [58]) = true → named l name = true

theorem named_unique {name' : String} (h : named l name = true) (h' : named l name' = true) :
    sameCase (bytes name) (bytes name') = true := by
  rw [named, Bool.and_eq_true, sameCase, beq_iff_eq] at h h'
  rw [sameCase, beq_iff_eq, ← h.2, ← h'.2]

theorem OwnNames.not_has (hown : OwnNames l) (h : named l name = true) (name' : String)
    (hsought : name' ∈ soughtNames) (hne : sameCase (bytes name) (bytes name') = false) :
    ¬ hasCase l (bytes name' ++ [58]) = true := by
  intro hhas
  rw [named_unique h (hown name' hsought hhas)] at hne
  cases hne

theorem At.httpLine (env : ReportEnv) (h : At b t l) : Http.httpLine env b.text t =
      if hasCase l (bytes "Host" ++ [58]) then .attrib "http_host" (t.1 + l.idxOf 58 + 2) 1
      else if hasCase l (bytes "User-Agent" ++ [58]) then
        .attrib "http_user_agent" (t.1 + l.idxOf 58 + 2) 5
      else if hasCase l (bytes "X-Forwarded-For" ++ [58]) then
        .attrib "http_client_ip" (t.1 + l.idxOf 58 + 2) 5
      else if hasCase l (bytes "Content-Length" ++ [58]) then .length (t.1 + l.idxOf 58 + 2)
      else if hasCase l (bytes "x-appview" ++ [58]) then
        .attrib "x-appview" (t.1 + l.idxOf 58 + 2) 5
      else if env.headerRes.any (fun re => re.any (· l)) ∧ 58 ∈ l then
        .extract t.1 (t.1 + l.idxOf 58)
      else .other := by
  rw [Http.httpLine, h.slice]
  rfl

variable {a : Attribute}

theorem At.httpLine_attribute (env : ReportEnv) (h : At b t l) (hown : OwnNames l)
    (hn : named l a.header = true) :
    Http.httpLine env b.text t = .attrib a.field (t.1 + l.idxOf 58 + 2) a.verbosity := by
  have hhas := hasCase_of_named hn
  have hnot := hown.not_has hn
  rw [h.httpLine env]
  cases a with
  | host => exact if_pos hhas
  | userAgent =>
    rw [if_neg (hnot "Host" (by decide) (by decide))]
    exact if_pos hhas
  | clientIp =>
    rw [if_neg (hnot "Host" (by decide) (by decide)),
      if_neg (hnot "User-Agent" (by decide) (by decide))]
    exact if_pos hhas
  | appview =>
    rw [if_neg (hnot "Host" (by decide) (by decide)),
      if_neg (hnot "User-Agent" (by decide) (by decide)),
      if_neg (hnot "X-Forwarded-For" (by decide) (by decide)),
      if_neg (hnot "Content-Length" (by decide) (by decide))]
    exact if_pos hhas

theorem At.httpLine_length (env : ReportEnv) (h : At b t l) (hown : OwnNames l)
    (hn : named l "Content-Length" = true) :
    Http.httpLine env b.text t = .length (t.1 + l.idxOf 58 + 2) := by
  have hnot := hown.not_has hn
  rw [h.httpLine env, if_neg (hnot "Host" (by decide) (by decide)),
    if_neg (hnot "User-Agent" (by decide) (by decide)),
    if_neg (hnot "X-Forwarded-For" (by decide) (by decide)), if_pos (hasCase_of_named hn)]

theorem At.httpLine_other (env : ReportEnv) (h : At b t l) (hown : OwnNames l)
    (hno : ∀ name ∈ soughtNames, named l name = false) :
    (Http.httpLine env b.text t = .extract t.1 (t.1 + l.idxOf 58) ∧ 58 ∈ l) ∨
      Http.httpLine env b.text t = .other := by
  have hnot : ∀ name ∈ soughtNames, ¬ hasCase l (bytes name ++ [58]) = true := by
    intro name hname hhas
    have hnamed := hown name hname hhas
    rw [hno name hname] at hnamed
    cases hnamed
  rw [h.httpLine env, if_neg (hnot _ (by decide)), if_neg (hnot _ (by decide)),
    if_neg (hnot _ (by decide)), if_neg (hnot _ (by decide)), if_neg (hnot _ (by decide))]
  split_ifs with hre
  · exact .inl ⟨rfl, hre.2⟩
  · exact .inr rfl

theorem At.httpLine_extract (h : At b t l) {start colon : ℕ}
    (hline : Http.httpLine env b.text t = .extract start colon) :
    start = t.1 ∧ colon = t.1 + l.idxOf 58 ∧ 58 ∈ l := by
  rw [h.httpLine env] at hline
  split_ifs at hline with _ _ _ _ _ hre
  cases hline
  exact ⟨rfl, rfl, hre.2⟩

/-! ## The buffer in the end -/

def HeaderBlock.places (b : HeaderBlock) : List (ℕ × ℕ) := linePlaces (b.start.length + 2) b.lines

def HeaderBlock.final (env : ReportEnv) (b : HeaderBlock) : List UInt8 :=
  cutAt b.text (cuts env b.text b.places ++ [b.start.length])

theorem cut_inside (ht : t ∈ b.places) {i : ℕ} (hlo : t.1 ≤ i) (hhi : i < t.2)
    (hi : i ∈ cuts env b.text b.places ++ [b.start.length]) :
    Http.httpLine env b.text t = .extract t.1 i := by
  have hge := (linePlaces_ge ht).1
  rw [mem_append, mem_singleton, cuts, mem_append] at hi
  rcases hi with (hi | hi) | hi
  · obtain ⟨t', ht', rfl⟩ := mem_map.mp hi
    have hle := (linePlaces_ge ht').2
    rcases linePlaces_apart ht ht' with rfl | hapart | hapart <;> omega
  · obtain ⟨t', ht', hcut⟩ := mem_filterMap.mp hi
    obtain ⟨l', h'⟩ := line_at ht'
    cases hline : Http.httpLine env b.text t' with
    | extract start colon =>
      rw [hline] at hcut
      obtain rfl := Option.some.inj hcut
      obtain ⟨rfl, rfl, hmem⟩ := h'.httpLine_extract hline
      have hidx := idxOf_lt_length_of_mem hmem
      have hstop := h'.stop
      rcases linePlaces_apart ht ht' with rfl | hapart | hapart
      · exact hline
      · omega
      · omega
    | attrib _ _ _ | length _ | other => rw [hline] at hcut; cases hcut
  · omega

theorem take_idxOf (l : List UInt8) : l.take (l.idxOf 58) = headerName l := by
  rw [headerName, takeWhile_eq_take_findIdx_not, idxOf]
  congr 2
  funext c
  by_cases h : c = 58 <;> simp [h]

def Spaced (l : List UInt8) : Prop :=
  ∃ w v, l.drop (l.idxOf 58 + 1) = w :: v ∧ isOws w = true ∧ trim v = v

theorem Spaced.value (h : Spaced l) :
    l.idxOf 58 + 2 ≤ l.length ∧ l.drop (l.idxOf 58 + 2) = headerValue l := by
  obtain ⟨w, v, hdrop, hw, hv⟩ := h
  constructor
  · have hlen := congrArg length hdrop
    rw [length_drop, length_cons] at hlen
    omega
  · have hnext : l.drop (l.idxOf 58 + 2) = v := by
      rw [← Nat.add_assoc _ 1 1, ← drop_drop, hdrop]
      rfl
    have htrim : trim (w :: v) = trim v := by
      rw [trim, dropWhile_cons_of_pos hw, trim]
    rw [hnext, headerValue, hdrop, htrim, hv]

theorem At.value (hb : b.Plain) (h : At b t l) (hs : Spaced l) {places : List ℕ}
    (hcut : t.2 ∈ places) (hkeep : ∀ i, t.1 ≤ i → i < t.2 → i ∉ places) :
    AppView.textAt (cutAt b.text places) (t.1 + l.idxOf 58 + 2) = headerValue l := by
  obtain ⟨hle, hvalue⟩ := hs.value
  have hstop := h.stop
  rw [Nat.add_assoc, h.textAt hb hle (Nat.le_refl _) (hstop ▸ hcut)
    (fun i hlo hhi => hkeep i (by omega) (by omega)), take_length, hvalue]

theorem At.attribute (hb : b.Plain) (ht : t ∈ b.places) (h : At b t l) (hown : OwnNames l)
    (hs : Spaced l) (hn : named l a.header = true) :
    lineField (b.final env) (Http.httpLine env b.text t) =
      some (hAttrib a.field (headerValue l) a.verbosity) := by
  have hline := h.httpLine_attribute env hown hn
  have hcut : t.2 ∈ cuts env b.text b.places ++ [b.start.length] :=
    mem_append_left _ (mem_append_left _ (mem_map_of_mem ht))
  have hkeep : ∀ i, t.1 ≤ i → i < t.2 → i ∉ cuts env b.text b.places ++ [b.start.length] := by
    intro i hlo hhi hi
    rw [cut_inside ht hlo hhi hi] at hline
    cases hline
  rw [hline, lineField, HeaderBlock.final, h.value hb hs hcut hkeep]

theorem At.extract (hb : b.Plain) (ht : t ∈ b.places) (h : At b t l) {start colon : ℕ}
    (hline : Http.httpLine env b.text t = .extract start colon)
    (hf : lineField (b.final env) (Http.httpLine env b.text t) = some f) :
    f.name = headerName l := by
  obtain ⟨rfl, rfl, hmem⟩ := h.httpLine_extract hline
  have hidx := idxOf_lt_length_of_mem hmem
  have hstop := h.stop
  have hcut : t.1 + l.idxOf 58 ∈ cuts env b.text b.places ++ [b.start.length] := by
    refine mem_append_left _ (mem_append_right _ (mem_filterMap.mpr ⟨t, ht, ?_⟩))
    rw [hline]
  have hkeep : ∀ i, t.1 + 0 ≤ i → i < t.1 + l.idxOf 58 →
      i ∉ cuts env b.text b.places ++ [b.start.length] := by
    intro i hlo hhi hi
    have hsame := (cut_inside ht (by omega) (by omega) hi).symm.trans hline
    cases hsame
    omega
  have hname := h.textAt hb (Nat.zero_le _) hidx.le hcut hkeep
  rw [Nat.add_zero, drop_zero, take_idxOf] at hname
  rw [hline, lineField] at hf
  rw [← Option.some.inj hf]
  exact hname

theorem line_cases (l : List UInt8) :
    (∃ a : Attribute, named l a.header = true) ∨ named l "Content-Length" = true ∨
      ∀ name ∈ soughtNames, named l name = false := by
  by_cases ha : ∃ a : Attribute, named l a.header = true
  · exact .inl ha
  · by_cases hlen : named l "Content-Length" = true
    · exact .inr (.inl hlen)
    · have hno : ∀ a : Attribute, named l a.header = false := by
        intro a
        by_contra hn
        exact ha ⟨a, by simpa using hn⟩
      refine .inr (.inr ?_)
      simp only [soughtNames, mem_cons, not_mem_nil, or_false, forall_eq_or_imp, forall_eq]
      exact ⟨hno .host, hno .userAgent, hno .clientIp, by simpa using hlen, hno .appview⟩

theorem field_injective {a' : Attribute} (h : bytes a.field = bytes a'.field) : a = a' := by
  revert h
  cases a <;> cases a' <;> decide

/-! ## Lengths -/

/-- A number that `strtoull` reads as its decimal value, which is not 0: it has no leading zero,
or is below 8. -/
structure DecimalLength (ds : List UInt8) : Prop where
  ne_nil : ds ≠ []
  digits : ∀ c ∈ ds, isDigit c = true
  reads : strtoull ds = digitsVal 10 ds
  pos : 0 < digitsVal 10 ds
  lt : digitsVal 10 ds < 2 ^ 63

theorem isDigit_iff {c : UInt8} : isDigit c = true ↔ 48 ≤ c.toNat ∧ c.toNat ≤ 57 := by
  rw [isDigit, Bool.and_eq_true, decide_eq_true_eq, decide_eq_true_eq, UInt8.le_iff_toNat_le,
    UInt8.le_iff_toNat_le]
  rfl

theorem isSpace_of_isDigit {c : UInt8} (h : isDigit c = true) : isSpace c = false := by
  rw [isDigit_iff] at h
  have hne : c ≠ 32 := by
    rintro rfl
    exact absurd h.1 (by decide)
  have hle : ¬ c ≤ 13 := by
    rw [UInt8.le_iff_toNat_le]
    have h13 : (13 : UInt8).toNat = 13 := rfl
    omega
  simp [isSpace, hne, hle]

theorem leadingDigits_append (hds : ∀ c ∈ ds, isDigit c = true)
    (hrest : ∀ c ∈ rest.head?, isOws c = true) (base : ℕ) :
    leadingDigits base (ds ++ rest) =
      (ds.takeWhile fun d => 48 ≤ d.toNat ∧ d.toNat < 48 + base).map fun c => c.toNat - 48 := by
  induction ds with
  | nil =>
    cases rest with
    | nil => rfl
    | cons c rest =>
      have hc : c = 32 ∨ c = 9 := by simpa [isOws] using hrest c rfl
      rcases hc with rfl | rfl <;> rfl
  | cons d ds ih =>
    have hd := hds d mem_cons_self
    have hval : digitVal d = some (d.toNat - 48) := if_pos hd
    rw [isDigit_iff] at hd
    rw [cons_append, leadingDigits, hval, takeWhile_cons]
    by_cases hlt : d.toNat - 48 < base
    · rw [if_pos (decide_eq_true (by omega))]
      simp only [if_pos hlt, map_cons]
      rw [ih fun c hc => hds c (mem_cons_of_mem d hc)]
    · rw [if_neg (by rw [decide_eq_true_eq]; omega)]
      simp only [if_neg hlt, map_nil]

theorem lower_ne_x {c : UInt8} (h : isDigit c = true ∨ isOws c = true) : lower c ≠ 120 := by
  intro hx
  have hle : c ≤ 57 := by
    rcases h with h | h
    · rw [isDigit, Bool.and_eq_true, decide_eq_true_eq, decide_eq_true_eq] at h
      exact h.2
    · have hc : c = 32 ∨ c = 9 := by simpa [isOws] using h
      rcases hc with rfl | rfl <;> decide
  have hnot : ¬ (65 ≤ c ∧ c ≤ 90) := by
    intro hc
    have hletter : (65 : UInt8) ≤ 57 := UInt8.le_trans hc.1 hle
    exact absurd hletter (by decide)
  rw [lower, if_neg hnot] at hx
  rw [hx] at hle
  exact absurd hle (by decide)

/-- The value by the base that a leading zero selects. -/
def base0Val (ds : List UInt8) : ℕ :=
  let base := if ds.head? = some 48 then 8 else 10
  digitsVal base (ds.takeWhile fun d => 48 ≤ d.toNat ∧ d.toNat < 48 + base)

theorem strtoull_eq (ds : List UInt8) : strtoull ds = min (base0Val ds) (2 ^ 64 - 1) := rfl

theorem unsignedBase0_digits (hne : ds ≠ []) (hds : ∀ c ∈ ds, isDigit c = true)
    (hrest : ∀ c ∈ rest.head?, isOws c = true) :
    unsignedBase0 (ds ++ rest) = base0Val ds := by
  have hvalue : ∀ base, (leadingDigits base (ds ++ rest)).foldl (fun n d => base * n + d) 0 =
      digitsVal base (ds.takeWhile fun d => 48 ≤ d.toNat ∧ d.toNat < 48 + base) := by
    intro base
    rw [leadingDigits_append hds hrest, foldl_map, digitsVal]
    simp only [Nat.mul_comm base]
  obtain ⟨d, ds, rfl⟩ := exists_cons_of_ne_nil hne
  by_cases h48 : d = 48
  · subst h48
    have hnext : ∀ x ∈ (ds ++ rest).head?, isDigit x = true ∨ isOws x = true := by
      intro x hx
      cases ds with
      | nil => exact .inr (hrest x hx)
      | cons e ds =>
        have hex : e = x := Option.some.inj hx
        exact .inl (hex ▸ hds e (mem_cons_of_mem _ mem_cons_self))
    refine Eq.trans ?_ (hvalue 8)
    rw [cons_append]
    match ds ++ rest, hnext with
    | [], _ => rfl
    | [x], _ => rfl
    | x :: b :: cs, hx =>
      rw [unsignedBase0, if_neg]
      exact fun hand => lower_ne_x (hx x rfl) hand.1
  · have hbase : base0Val (d :: ds) =
        digitsVal 10 ((d :: ds).takeWhile fun d => 48 ≤ d.toNat ∧ d.toNat < 48 + 10) := by
      rw [base0Val, if_neg]
      exact fun hhead => h48 (Option.some.inj hhead)
    rw [hbase, ← hvalue 10, cons_append, unsignedBase0]
    · intro x b ds' heq
      exact h48 (cons.inj heq).1
    · intro ds' heq
      exact h48 (cons.inj heq).1

theorem strtoullBase0_digits (hne : ds ≠ []) (hds : ∀ c ∈ ds, isDigit c = true)
    (hrest : ∀ c ∈ rest.head?, isOws c = true) :
    strtoullBase0 (ds ++ rest) = if 2 ^ 64 ≤ base0Val ds then none else some (base0Val ds) := by
  have hbase := unsignedBase0_digits hne hds hrest
  obtain ⟨d, ds, rfl⟩ := exists_cons_of_ne_nil hne
  have hd := hds d mem_cons_self
  have hsign : d ≠ 45 ∧ d ≠ 43 := by
    constructor <;> (rintro rfl; cases hd)
  rw [strtoullBase0, cons_append, dropWhile_cons_of_neg (by rw [isSpace_of_isDigit hd]; decide)]
  split
  · rename_i heq
    exact absurd (cons.inj heq).1 hsign.1
  · rename_i heq
    exact absurd (cons.inj heq).1 hsign.2
  · exact congrArg (fun n => if 2 ^ 64 ≤ n then none else some n) hbase

theorem DecimalLength.base0 (h : DecimalLength ds) : base0Val ds = digitsVal 10 ds := by
  have hreads := h.reads
  have hlt := h.lt
  rw [strtoull_eq] at hreads
  omega

/-- The number that is read from a line, two places behind its first colon. -/
def numberIn (l : List UInt8) : Option ℕ :=
  (strtoullBase0 (l.drop (l.idxOf 58 + 2))).filter fun n => n ≠ 0 ∧ n ≠ 2 ^ 64 - 1

theorem At.clenAt (hb : b.Plain) (h : At b t l) (hle : l.idxOf 58 + 2 ≤ l.length) :
    Http.clenAt (cutAt b.text [t.2]) (t.1 + l.idxOf 58 + 2) = numberIn l := by
  have hstop := h.stop
  have hcut : t.1 + l.length ∈ [t.2] := by rw [← hstop]; exact mem_singleton_self _
  have htext := h.textAt hb hle (Nat.le_refl _) hcut (fun i _ hhi => by rw [mem_singleton]; omega)
  rw [take_length, ← Nat.add_assoc] at htext
  rw [Http.clenAt, htext, numberIn]

theorem numberIn_decimal (hvalue : l.drop (l.idxOf 58 + 2) = ds ++ rest) (hds : DecimalLength ds)
    (hrest : ∀ c ∈ rest.head?, isOws c = true) : numberIn l = some (digitsVal 10 ds) := by
  have hpos := hds.pos
  have hlt := hds.lt
  rw [numberIn, hvalue, strtoullBase0_digits hds.ne_nil hds.digits hrest, hds.base0,
    if_neg (by omega), Option.filter_some, if_pos]
  rw [decide_eq_true_eq]
  omega

def clenStep (env : ReportEnv) (buf : List UInt8) (clen : Option ℕ) (tok : ℕ × ℕ) : Option ℕ :=
  match httpLine env buf tok with
  | .length place => clenAt (cutAt buf [tok.2]) place
  | _ => clen

theorem headerClen_eq (env : ReportEnv) (buf : List UInt8) (toks : List (ℕ × ℕ)) :
    headerClen env buf toks = toks.foldl (clenStep env buf) none := rfl

theorem foldl_clenStep {buf : List UInt8} {toks : List (ℕ × ℕ)}
    (h : ∀ t ∈ toks, ∀ place, httpLine env buf t ≠ .length place) (clen : Option ℕ) :
    toks.foldl (clenStep env buf) clen = clen := by
  induction toks with
  | nil => rfl
  | cons t toks ih =>
    have hskip : clenStep env buf clen t = clen := by
      rw [clenStep]
      cases hline : httpLine env buf t with
      | length place => exact absurd hline (h t mem_cons_self place)
      | attrib _ _ _ => rfl
      | extract _ _ => rfl
      | other => rfl
    rw [foldl_cons, hskip]
    exact ih fun c hc => h c (mem_cons_of_mem t hc)

theorem headerClen_last {buf : List UInt8} {before after : List (ℕ × ℕ)} {place : ℕ}
    (ht : httpLine env buf t = .length place)
    (hafter : ∀ t' ∈ after, ∀ place', httpLine env buf t' ≠ .length place') :
    headerClen env buf (before ++ t :: after) = clenAt (cutAt buf [t.2]) place := by
  have hstep : ∀ clen, clenStep env buf clen t = clenAt (cutAt buf [t.2]) place := by
    intro clen
    rw [clenStep, ht]
  rw [headerClen_eq, foldl_append, foldl_cons, hstep, foldl_clenStep hafter]

theorem linePlaces_append (at_ : ℕ) (before after : List (List UInt8)) :
    linePlaces at_ (before ++ after) =
      linePlaces at_ before ++ linePlaces (at_ + (encode before).length) after := by
  induction before generalizing at_ with
  | nil => rfl
  | cons l before ih =>
    rw [cons_append, linePlaces, linePlaces, ih, cons_append, encode_cons, length_line]
    simp [Nat.add_assoc]

theorem places_split {before after : List (List UInt8)} (hlines : b.lines = before ++ l :: after) :
    ∃ ts t ts', b.places = ts ++ t :: ts' ∧ At b t l ∧ ∀ t' ∈ ts', ∃ l' ∈ after, At b t' l' := by
  refine ⟨_, _, _, by rw [HeaderBlock.places, hlines, linePlaces_append, linePlaces],
    at_place hlines, ?_⟩
  intro t' ht'
  obtain ⟨before', l', after', rfl, hstart, hstop⟩ := mem_linePlaces ht'
  have hlines' : b.lines = (before ++ l :: before') ++ l' :: after' := by
    rw [hlines, append_assoc, cons_append]
  have hcount : (encode (before ++ l :: before')).length =
      (encode before).length + l.length + 2 + (encode before').length := by
    simp only [encode, map_append, flatten_append, map_cons, flatten_cons,
      length_append, show httpEnd.length = 2 from rfl]
    omega
  have hplace : t' = (b.start.length + 2 + (encode (before ++ l :: before')).length,
      b.start.length + 2 + (encode (before ++ l :: before')).length + l'.length) := by
    refine Prod.ext ?_ ?_
    · omega
    · omega
  exact ⟨l', by simp, hplace ▸ at_place hlines'⟩

/-! ## The fields of a block -/

def clenField (isReq : Bool) : String :=
  if isReq then "http_request_content_length" else "http_response_content_length"

theorem httpFields_text (hb : b.Plain) (isReq : Bool) : httpFields env isReq b.text =
      b.places.filterMap (fun t => lineField (b.final env) (httpLine env b.text t)) ++
        ((headerClen env b.text b.places).map fun n =>
          hValue (clenField isReq) (longLong n) eventOnlyAttr).toList := by
  rw [httpFields, headerCopy_text hb, tokens_text hb]
  rfl

/-- A line that gives a field of its own. -/
def givesField (env : ReportEnv) (l : List UInt8) : Bool :=
  hasCase l (bytes "Host" ++ [58]) || hasCase l (bytes "User-Agent" ++ [58]) ||
    hasCase l (bytes "X-Forwarded-For" ++ [58]) ||
    !hasCase l (bytes "Content-Length" ++ [58]) && (hasCase l (bytes "x-appview" ++ [58]) ||
      env.headerRes.any (fun re => re.any (· l)) && decide (58 ∈ l))

theorem At.isSome_lineField (h : At b t l) (fin : List UInt8) :
    (lineField fin (Http.httpLine env b.text t)).isSome = givesField env l := by
  rw [h.httpLine env, givesField]
  generalize env.headerRes.any (fun re => re.any (· l)) = found
  split_ifs <;> simp_all [lineField]

theorem countP_places (b : HeaderBlock) (fin : List UInt8) :
    b.places.countP (fun t => (lineField fin (httpLine env b.text t)).isSome) =
      b.lines.countP (givesField env) := by
  have hall : ∀ before after, b.lines = before ++ after →
      (linePlaces (b.start.length + 2 + (encode before).length) after).countP
        (fun t => (lineField fin (httpLine env b.text t)).isSome) =
      after.countP (givesField env) := by
    intro before after hlines
    induction after generalizing before with
    | nil => rfl
    | cons l after ih =>
      have hrest := ih (before ++ [l]) (by rw [hlines, append_assoc, singleton_append])
      have hlen : (encode (before ++ [l])).length = (encode before).length + l.length + 2 := by
        simp [encode, httpEnd, Nat.add_assoc]
      rw [hlen] at hrest
      rw [linePlaces, countP_cons, countP_cons, (at_place hlines).isSome_lineField fin, ← hrest]
      simp only [Nat.add_assoc]
  exact hall [] b.lines rfl

/-- A line that is taken for one with the length. -/
def takenForLength (l : List UInt8) : Bool :=
  !hasCase l (bytes "Host" ++ [58]) && !hasCase l (bytes "User-Agent" ++ [58]) &&
    !hasCase l (bytes "X-Forwarded-For" ++ [58]) && hasCase l (bytes "Content-Length" ++ [58])

theorem At.httpLine_taken (env : ReportEnv) (h : At b t l)
    (htaken : takenForLength l = true) :
    Http.httpLine env b.text t = .length (t.1 + l.idxOf 58 + 2) := by
  rw [takenForLength] at htaken
  rw [h.httpLine env]
  simp_all

theorem At.httpLine_not_taken (env : ReportEnv) (h : At b t l)
    (htaken : takenForLength l = false) (place : ℕ) :
    Http.httpLine env b.text t ≠ .length place := by
  rw [takenForLength] at htaken
  rw [h.httpLine env]
  split_ifs <;> simp_all

/-- The elements of the array that the lines take. -/
def fieldCount (env : ReportEnv) (b : HeaderBlock) : ℕ :=
  b.lines.countP (givesField env) + if b.lines.any takenForLength then 1 else 0

structure Tidy (env : ReportEnv) (b : HeaderBlock) : Prop where
  plain : b.Plain
  /-- no sought name with a colon, but as the name of the line -/
  own : ∀ l ∈ b.lines, OwnNames l
  /-- one character of white space behind the colon, none at the end -/
  spaced : ∀ l ∈ b.lines, ∀ name ∈ soughtNames, named l name = true → Spaced l
  /-- no line that a configured expression reports has the name of a field of an event -/
  fields : ∀ l ∈ b.lines, givesField env l = true → ∀ a : Attribute,
    headerName l = bytes a.field → named l a.header = true
  lengthFields : ∀ l ∈ b.lines, givesField env l = true → ∀ isReq,
    headerName l ≠ bytes (clenField isReq)
  length : ∀ l ∈ b.lines, named l "Content-Length" = true → DecimalLength (headerValue l)
  /-- all lengths are the same number -/
  same : ∀ l ∈ b.lines, ∀ l' ∈ b.lines, named l "Content-Length" = true →
    named l' "Content-Length" = true →
    digitsVal 10 (headerValue l) = digitsVal 10 (headerValue l')

theorem Tidy.field_cases (hb : Tidy env b) (ht : t ∈ b.places)
    (hf : lineField (b.final env) (httpLine env b.text t) = some f) :
    (∃ l ∈ b.lines, ∃ a : Attribute, named l a.header = true ∧
        f = hAttrib a.field (headerValue l) a.verbosity) ∨
      ∃ l ∈ b.lines, (∀ name ∈ soughtNames, named l name = false) ∧ givesField env l = true ∧
        f.name = headerName l := by
  obtain ⟨l, h⟩ := line_at ht
  have hgives : givesField env l = true := by
    rw [← h.isSome_lineField (b.final env), hf]
    rfl
  have hown := hb.own l h.mem
  rcases line_cases l with ⟨a, ha⟩ | hlen | hno
  · have hs := hb.spaced l h.mem _ (header_mem_soughtNames a) ha
    rw [h.attribute hb.plain ht hown hs ha] at hf
    exact .inl ⟨l, h.mem, a, ha, (Option.some.inj hf).symm⟩
  · rw [h.httpLine_length env hown hlen] at hf
    cases hf
  · rcases h.httpLine_other env hown hno with ⟨hline, -⟩ | hline
    · exact .inr ⟨l, h.mem, hno, hgives, h.extract hb.plain ht hline hf⟩
    · rw [hline] at hf
      cases hf

theorem Tidy.attribute_iff (hb : Tidy env b) (isReq : Bool) (a : Attribute)
    (hname : f.name = bytes a.field) : f ∈ httpFields env isReq b.text ↔
      ∃ l ∈ b.lines, named l a.header = true ∧ f = hAttrib a.field (headerValue l) a.verbosity := by
  rw [httpFields_text hb.plain, mem_append, mem_filterMap]
  constructor
  · rintro (⟨t, ht, hf⟩ | hf)
    · rcases hb.field_cases ht hf with ⟨l, hl, a', ha', rfl⟩ | ⟨l, hl, hno, hgives, hfl⟩
      · obtain rfl := field_injective hname
        exact ⟨l, hl, ha', rfl⟩
      · have hnamed := hb.fields l hl hgives a (hfl.symm.trans hname)
        rw [hno _ (header_mem_soughtNames a)] at hnamed
        cases hnamed
    · exfalso
      obtain ⟨n, -, rfl⟩ := Option.map_eq_some_iff.mp (Option.mem_toList.mp hf)
      change bytes (clenField isReq) = bytes a.field at hname
      revert hname
      cases a <;> cases isReq <;> decide
  · rintro ⟨l, hl, ha, rfl⟩
    obtain ⟨t, ht, h⟩ := at_of_mem hl
    have hs := hb.spaced l hl _ (header_mem_soughtNames a) ha
    exact .inl ⟨t, ht, h.attribute hb.plain ht (hb.own l hl) hs ha⟩

theorem Tidy.not_length (hb : Tidy env b) (h : At b t l) (hno : named l "Content-Length" = false)
    (place : ℕ) : httpLine env b.text t ≠ .length place := by
  have hown := hb.own l h.mem
  intro hline
  rcases line_cases l with ⟨a, ha⟩ | hlen | hother
  · rw [h.httpLine_attribute env hown ha] at hline
    cases hline
  · rw [hno] at hlen
    cases hlen
  · rcases h.httpLine_other env hown hother with ⟨hline', -⟩ | hline'
    · rw [hline'] at hline
      cases hline
    · rw [hline'] at hline
      cases hline

theorem exists_last {p : List UInt8 → Bool} (h : ∃ l ∈ ls, p l = true) :
    ∃ before l after, ls = before ++ l :: after ∧ p l = true ∧ ∀ l' ∈ after, p l' = false := by
  induction ls using reverseRecOn with
  | nil =>
    obtain ⟨l, hl, -⟩ := h
    cases hl
  | append_singleton ls l ih =>
    cases hl : p l with
    | true => exact ⟨ls, l, [], rfl, hl, forall_mem_nil _⟩
    | false =>
      obtain ⟨m, hm, hp⟩ := h
      have hmem : m ∈ ls := by
        rcases mem_append.mp hm with hm | hm
        · exact hm
        · rw [mem_singleton.mp hm, hl] at hp
          cases hp
      obtain ⟨before, x, after, rfl, hx, hafter⟩ := ih ⟨m, hmem, hp⟩
      refine ⟨before, x, after ++ [l], by simp, hx, ?_⟩
      intro l' hl'
      rcases mem_append.mp hl' with hl' | hl'
      · exact hafter l' hl'
      · rw [mem_singleton.mp hl', hl]

theorem Tidy.headerClen (hb : Tidy env b) (hl : l ∈ b.lines)
    (hlen : named l "Content-Length" = true) :
    Http.headerClen env b.text b.places = some (digitsVal 10 (headerValue l)) := by
  obtain ⟨before, last, after, hlines, hlast, hother⟩ :=
    @exists_last b.lines (fun l => named l "Content-Length") ⟨l, hl, hlen⟩
  have hmem : last ∈ b.lines := by
    rw [hlines]
    exact mem_append_right _ mem_cons_self
  obtain ⟨ts, t, ts', hplaces, h, hbehind⟩ := places_split hlines
  obtain ⟨hle, hvalue⟩ := (hb.spaced last hmem _ (by decide) hlast).value
  rw [hplaces, headerClen_last (h.httpLine_length env (hb.own last hmem) hlast),
    h.clenAt hb.plain hle, hb.same l hl last hmem hlen hlast]
  · exact numberIn_decimal (by rw [hvalue, append_nil]) (hb.length last hmem hlast) (by simp)
  · intro t' ht' place
    obtain ⟨l', hl', h'⟩ := hbehind t' ht'
    exact hb.not_length h' (hother l' hl') place

theorem longLong_of_lt {n : ℕ} (h : n < 2 ^ 63) : longLong n = n := if_pos h

theorem Tidy.length_iff (hb : Tidy env b) (isReq : Bool)
    (hname : f.name = bytes (clenField isReq)) :
    f ∈ httpFields env isReq b.text ↔ ∃ l ∈ b.lines, named l "Content-Length" = true ∧
        f = hValue (clenField isReq) (digitsVal 10 (headerValue l)) eventOnlyAttr := by
  rw [httpFields_text hb.plain, mem_append, mem_filterMap]
  constructor
  · rintro (⟨t, ht, hf⟩ | hf)
    · exfalso
      rcases hb.field_cases ht hf with ⟨l, hl, a, -, rfl⟩ | ⟨l, hl, -, hgives, hfl⟩
      · change bytes a.field = _ at hname
        revert hname
        cases a <;> cases isReq <;> decide
      · exact hb.lengthFields l hl hgives isReq (hfl.symm.trans hname)
    · obtain ⟨n, hn, rfl⟩ := Option.map_eq_some_iff.mp (Option.mem_toList.mp hf)
      by_cases hline : ∃ l ∈ b.lines, named l "Content-Length" = true
      · obtain ⟨l, hl, hlen⟩ := hline
        rw [hb.headerClen hl hlen] at hn
        obtain rfl := Option.some.inj hn
        exact ⟨l, hl, hlen, by rw [longLong_of_lt (hb.length l hl hlen).lt]⟩
      · -- without such a line there is no length
        have hnone : Http.headerClen env b.text b.places = none := by
          rw [headerClen_eq]
          refine foldl_clenStep (fun t ht place => ?_) none
          obtain ⟨l, h⟩ := line_at ht
          refine hb.not_length h ?_ place
          by_contra hlen
          exact hline ⟨l, h.mem, by simpa using hlen⟩
        rw [hnone] at hn
        cases hn
  · rintro ⟨l, hl, hlen, rfl⟩
    refine .inr (Option.mem_toList.mpr (Option.map_eq_some_iff.mpr ⟨_, hb.headerClen hl hlen, ?_⟩))
    rw [longLong_of_lt (hb.length l hl hlen).lt]

theorem length_httpFields (hb : b.Plain) (isReq : Bool) :
    (httpFields env isReq b.text).length ≤ fieldCount env b := by
  rw [httpFields_text hb, length_append, length_filterMap_eq_countP, countP_places, fieldCount]
  refine Nat.add_le_add_left ?_ _
  split_ifs with htaken
  · cases Http.headerClen env b.text b.places <;> simp
  · have hnone : Http.headerClen env b.text b.places = none := by
      rw [headerClen_eq]
      refine foldl_clenStep (fun t ht place => ?_) none
      obtain ⟨l, h⟩ := line_at ht
      refine h.httpLine_not_taken env ?_ place
      by_contra hl
      exact htaken (any_eq_true.mpr ⟨l, h.mem, by simpa using hl⟩)
    rw [hnone]
    rfl

theorem fieldArray_room {isReq : Bool} (hb : b.Plain) {before : List EventField}
    (hroom : before.length + fieldCount env b < httpMaxFields) :
    (fieldArray (before ++ httpFields env isReq b.text)).drop before.length =
      httpFields env isReq b.text := by
  have hlen := @length_httpFields b env hb isReq
  have hall : fieldArray (before ++ httpFields env isReq b.text) =
      before ++ httpFields env isReq b.text := by
    refine take_of_length_le ?_
    rw [length_append]
    omega
  rw [hall, drop_left]

def requestBlock (lines : List (List UInt8)) (no_end : ∀ l ∈ lines, ¬ httpEnd <:+: l)
    (nonempty : ∀ l ∈ lines, l ≠ []) : HeaderBlock where
  start := bytes "GET / HTTP/1.1"
  lines := lines
  start_http := ⟨bytes "GET / ", bytes "1.1", by decide⟩
  no_end := by
    have hstart : ¬ httpEnd <:+: bytes "GET / HTTP/1.1" := by decide
    exact forall_mem_cons.mpr ⟨hstart, no_end⟩
  nonempty := nonempty

def tidyRequest : HeaderBlock :=
  requestBlock [bytes "hOST: a", bytes "Content-Length: 42"] (by decide) (by decide)

def plainEnv : ReportEnv :=
  ⟨[], 1, [], [], fun _ => [], 1, true, []⟩

theorem tidyRequest_tidy : Tidy plainEnv tidyRequest where
  plain := by
    unfold HeaderBlock.Plain
    decide
  own := by
    unfold OwnNames
    decide +kernel
  spaced := by
    intro l hl _ _ _
    simp only [tidyRequest, requestBlock, mem_cons, not_mem_nil, or_false] at hl
    rcases hl with rfl | rfl
    · exact ⟨32, bytes "a", by decide, by decide, by decide⟩
    · exact ⟨32, bytes "42", by decide, by decide, by decide⟩
  fields := by
    intro l hl _ a
    simp only [tidyRequest, requestBlock, mem_cons, not_mem_nil, or_false] at hl
    rcases hl with rfl | rfl <;> cases a <;> decide
  lengthFields := by decide
  length := by
    intro l hl hlen
    simp only [tidyRequest, requestBlock, mem_cons, not_mem_nil, or_false] at hl
    rcases hl with rfl | rfl
    · exact absurd hlen (by decide)
    · exact ⟨by decide, all_eq_true.1 (by decide), by decide, by decide, by decide⟩
  same := by decide

def forwardedRequest : HeaderBlock :=
  requestBlock [bytes "X-Forwarded-Host: b"] (by decide) (by decide)

def tightRequest : HeaderBlock :=
  requestBlock [bytes "Host:ab", bytes "User-Agent:", bytes "X: y"] (by decide) (by decide)

def emptyRequest : HeaderBlock :=
  requestBlock [bytes "Content-Length: 0"] (by decide) (by decide)

end AppView.Http

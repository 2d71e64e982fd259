import AppView.Framework.Runs
import AppView.Http2.Block

/-!
# The two directions of an HTTP/2 connection

Each direction of a connection has an HPACK table of its own, but a channel has one decoder for
both: what is received changes what an index stands for in what is sent.
-/

namespace AppView.Http2

open AppView.Framework List Function Option

variable {huff : Bytes → Option Bytes} {fl : Filters}

/-! ## Frames and decoders -/

def Proto.block (p : Proto) : Option Bytes :=
  (frameHeader p.frame).bind fun h => if h.hasBlock then some (headerData h p.frame) else none

def decodeFrame (huff : Bytes → Option Bytes) (d : Dec) (p : Proto) : Dec × List Field :=
  p.block.elim (d, []) (decodeBlock huff d)

def decoderOf (channel : Option Channel) : Dec := (channel.getD Channel.new).decoder

theorem doHttp2Frame_decodes (huff : Bytes → Option Bytes) (fl : Filters) (channel : Option Channel)
    (p : Proto) :
    (decoderOf (doHttp2Frame huff fl channel p).1, (doHttp2Frame huff fl channel p).2.1) =
      decodeFrame huff (decoderOf channel) p := by
  unfold doHttp2Frame decodeFrame Proto.block
  cases hh : frameHeader p.frame with
  | none => rfl
  | some h =>
    by_cases hb : h.hasBlock
    · simp only [hb, if_true, bind_some, elim_some]
      rfl
    · simp [hb]

/-! ## What the sender encoded -/

/-- The fields the sender encoded in each frame, with a table of its own. -/
def Encodes (huff : Bytes → Option Bytes) : Dec → List Proto → List (List Field) → Prop
  | _, [], sent => sent = []
  | d, p :: ps, sent =>
    match p.block with
    | none => ∃ more, sent = [] :: more ∧ Encodes huff d ps more
    | some s =>
      ∃ d' fs more, ReadsTo huff d s fs d' [] ∧ sent = fs :: more ∧ Encodes huff d' ps more

/-! ## Where the tables agree -/

def Dec.means (d : Dec) : Rep → Option Field
  | .indexed index => d.entry index
  | .literal _ index name value => (d.literalName index name).map fun n => ⟨n, value⟩

def Rep.adds : Rep → Bool
  | .indexed _ => false
  | .literal add .. => add

def Dec.after (d : Dec) (rep : Rep) : Dec := ((d.apply rep).map Prod.snd).getD d

inductive Agree (huff : Bytes → Option Bytes) : Dec → Dec → Bytes → Prop where
  | nil (d o : Dec) : Agree huff d o []
  | update {d o : Dec} {c : UInt8} {s t : Bytes} {n : ℕ} (hc : c &&& 0xe0 = 0x20)
      (hint : decInt 5 (c :: s) = some (n, t))
      (next : Agree huff (d.updateMaxCapacity n) (o.updateMaxCapacity n) t) :
      Agree huff d o (c :: s)
  | field {d o : Dec} {c : UInt8} {s t : Bytes} {rep : Rep} (hc : ¬ c &&& 0xe0 = 0x20)
      (hrep : readRep huff (c :: s) = some (rep, t)) (hsame : d.means rep = o.means rep)
      (next : Agree huff (d.after rep) (o.after rep) t) : Agree huff d o (c :: s)

variable {d : Dec} {s : Bytes} {fs : List Field} {o o' d' : Dec} {p : Proto} {ps : List Proto}

/-- A representation stands for a field that fits, which goes to the table if it is to. -/
theorem apply_eq_some {rep : Rep} {f : Field} : d.apply rep = some (f, d') ↔
    d.means rep = some f ∧ Fits f ∧ d' = if rep.adds then d.pushEntry f else d := by
  cases rep with
  | indexed index =>
    simp only [Dec.apply, Dec.means, Rep.adds, bind_eq_some_iff]
    constructor
    · rintro ⟨g, hg, hfit⟩
      split_ifs at hfit with hf
      cases hfit
      exact ⟨hg, hf, rfl⟩
    · rintro ⟨hg, hf, rfl⟩
      exact ⟨f, hg, if_pos hf⟩
  | literal add index name value =>
    simp only [Dec.apply, Dec.means, Rep.adds, bind_eq_some_iff, map_eq_some_iff]
    constructor
    · rintro ⟨n, hn, hfit⟩
      split_ifs at hfit with hf hadd <;> cases hfit
      · exact ⟨⟨n, hn, rfl⟩, hf, (if_pos hadd).symm⟩
      · exact ⟨⟨n, hn, rfl⟩, hf, (if_neg hadd).symm⟩
    · rintro ⟨⟨n, hn, rfl⟩, hf, rfl⟩
      exact ⟨n, hn, if_pos hf⟩

theorem apply_of_means {rep : Rep} {f : Field} (hsame : d.means rep = o.means rep)
    (h : o.apply rep = some (f, o')) : ∃ d', d.apply rep = some (f, d') := by
  obtain ⟨hmeans, hf, -⟩ := apply_eq_some.1 h
  exact ⟨_, apply_eq_some.2 ⟨hsame.trans hmeans, hf, rfl⟩⟩

/-- **One block**: where the tables agree, the block stands for the same fields. -/
theorem Agree.readsTo (h : Agree huff d o s) (hown : ReadsTo huff o s fs o' [])
    (hmax : d.maxCapacity = o.maxCapacity) : ∃ d', ReadsTo huff d s fs d' [] := by
  induction h generalizing fs with
  | nil d o =>
    cases hown
    exact ⟨d, .here d []⟩
  | update hc hint next ih =>
    cases hown with
    | update _ hint' hle own =>
      cases hint.symm.trans hint'
      obtain ⟨d', hd'⟩ := ih own hmax
      exact ⟨d', .update hc hint (hmax ▸ hle) hd'⟩
    | field hc' => exact absurd hc hc'
  | field hc hrep hsame next ih =>
    cases hown with
    | update hc' => exact absurd hc' hc
    | field _ hrep' happ own =>
      cases hrep.symm.trans hrep'
      obtain ⟨d₁, hd₁⟩ := apply_of_means hsame happ
      simp only [Dec.after, hd₁, happ, map_some, getD_some] at ih
      have hmax₁ := (maxCapacity_apply hd₁).trans (hmax.trans (maxCapacity_apply happ).symm)
      obtain ⟨d', hd'⟩ := ih own hmax₁
      exact ⟨d', .field hc hrep hd₁ hd'⟩

/-! ## The run of a connection -/

/-- The channel, beside a decoder for each direction that sees only its frames. -/
structure Watch where
  channel : Option Channel
  own : Bool → Dec

def Watch.init : Watch := ⟨none, fun _ => Channel.new.decoder⟩

def watch (huff : Bytes → Option Bytes) (fl : Filters) (w : Watch) (p : Proto) :
    Watch × Bool × List Field :=
  let r := doHttp2Frame huff fl w.channel p
  (⟨r.1, Function.update w.own p.isServer (decodeFrame huff (w.own p.isServer) p).1⟩,
    p.isServer, r.2.1)

/-- What is extracted from the frames of one direction. -/
def extracted (huff : Bytes → Option Bytes) (fl : Filters) (ps : List Proto) (dir : Bool) :
    List (List Field) :=
  ((run (watch huff fl) Watch.init ps).2.filter (·.1 == dir)).map Prod.snd

def sentBy (dir : Bool) (ps : List Proto) : List Proto := ps.filter (·.isServer == dir)

def Separated (huff : Bytes → Option Bytes) (w : Watch) (p : Proto) : Prop :=
  ∀ s, p.block = some s → Agree huff (decoderOf w.channel) (w.own p.isServer) s

def Watch.Level (w : Watch) : Prop :=
  ∀ dir, (decoderOf w.channel).maxCapacity = (w.own dir).maxCapacity

variable {w : Watch}

theorem watch_step (fl : Filters) {sent : List (List Field)} (hlevel : w.Level)
    (hsep : Separated huff w p) (henc : Encodes huff (w.own p.isServer) (p :: ps) sent) :
    ∃ fs more, sent = fs :: more ∧ (watch huff fl w p).2 = (p.isServer, fs) ∧
      Encodes huff ((watch huff fl w p).1.own p.isServer) ps more ∧
      (watch huff fl w p).1.Level := by
  have hdec := doHttp2Frame_decodes huff fl w.channel p
  obtain ⟨hd, hf⟩ := Prod.mk.inj hdec
  cases hb : p.block with
  | none =>
    simp only [Encodes, hb] at henc
    obtain ⟨more, rfl, hmore⟩ := henc
    simp only [hb] at hd hf
    refine ⟨[], more, rfl, ?_, ?_, ?_⟩
    · simp [watch, hf]
    · simpa [watch, decodeFrame, hb] using hmore
    · intro dir
      simp only [watch, hd, decodeFrame, hb, elim_none, update_eq_self]
      exact hlevel dir
  | some s =>
    simp only [Encodes, hb] at henc
    obtain ⟨o', fs, more, hown, rfl, hmore⟩ := henc
    obtain ⟨d', hread⟩ := (hsep s hb).readsTo hown (hlevel p.isServer)
    simp only [hb, hread.decodeBlock_eq] at hd hf
    refine ⟨fs, more, rfl, ?_, ?_, ?_⟩
    · simp [watch, hf]
    · simpa [watch, decodeFrame, hb, hown.decodeBlock_eq] using hmore
    · intro dir
      simp only [watch, hd, decodeFrame, hb, elim_some, hown.decodeBlock_eq]
      rw [hread.maxCapacity]
      by_cases hdir : dir = p.isServer
      · subst hdir
        rw [update_self, hown.maxCapacity]
        exact hlevel p.isServer
      · rw [update_of_ne hdir]
        exact hlevel dir

theorem sentBy_cons_self : sentBy p.isServer (p :: ps) = p :: sentBy p.isServer ps := by
  simp [sentBy]

theorem encodes_next {sent : Bool → List (List Field)} {more : List (List Field)}
    (hmore : Encodes huff ((watch huff fl w p).1.own p.isServer) (sentBy p.isServer ps) more)
    (henc : ∀ dir, Encodes huff (w.own dir) (sentBy dir (p :: ps)) (sent dir)) (dir : Bool) :
    Encodes huff ((watch huff fl w p).1.own dir) (sentBy dir ps)
      (update sent p.isServer more dir) := by
  by_cases hdir : dir = p.isServer
  · subst hdir
    rw [update_self]
    exact hmore
  · have hother := henc dir
    have hne : (p.isServer == dir) = false := by simpa using Ne.symm hdir
    simp only [sentBy, filter_cons, hne, Bool.false_eq_true, if_false] at hother
    rw [update_of_ne hdir]
    simp only [watch, update_of_ne hdir]
    exact hother

theorem run_extracts {sent : Bool → List (List Field)} (hlevel : w.Level)
    (henc : ∀ dir, Encodes huff (w.own dir) (sentBy dir ps) (sent dir))
    (hsep : Along (watch huff fl) (Separated huff) w ps) (dir : Bool) :
    ((run (watch huff fl) w ps).2.filter (·.1 == dir)).map Prod.snd = sent dir := by
  induction ps generalizing w sent with
  | nil => exact (henc dir).symm
  | cons p ps ih =>
    obtain ⟨hp, hps⟩ := hsep
    have hfirst := henc p.isServer
    rw [sentBy_cons_self] at hfirst
    obtain ⟨fs, more, hsent, hout, hmore, hlevel'⟩ := watch_step fl hlevel hp hfirst
    have hrest := encodes_next hmore henc
    rw [run_cons, hout]
    by_cases hdir : p.isServer = dir
    · subst hdir
      simp only [filter_cons, beq_self_eq_true, if_true, map_cons]
      rw [ih hlevel' hrest hps, update_self, hsent]
    · have hne : (p.isServer == dir) = false := by simpa using hdir
      simp only [filter_cons, hne, Bool.false_eq_true, if_false]
      rw [ih hlevel' hrest hps, update_of_ne (Ne.symm hdir)]

theorem ReadsTo.agree (h : ReadsTo huff d s fs d' []) : Agree huff d d s := by
  generalize hr : ([] : Bytes) = r at h
  induction h with
  | here d s =>
    subst hr
    exact .nil d d
  | update hc hint hmax next ih => exact .update hc hint (ih hr)
  | field hc hrep happ next ih =>
    refine .field hc hrep rfl ?_
    simp only [Dec.after, happ, map_some, getD_some]
    exact ih hr

/-! ## What blocks do with the table -/

def Rep.index : Rep → ℕ
  | .indexed index => index
  | .literal _ index _ _ => index

/-- A block that reads no entry of the dynamic table. -/
inductive ReadsStatic (huff : Bytes → Option Bytes) : Bytes → Prop where
  | nil : ReadsStatic huff []
  | update {c : UInt8} {s t : Bytes} {n : ℕ} (hc : c &&& 0xe0 = 0x20)
      (hint : decInt 5 (c :: s) = some (n, t)) (next : ReadsStatic huff t) :
      ReadsStatic huff (c :: s)
  | field {c : UInt8} {s t : Bytes} {rep : Rep} (hc : ¬ c &&& 0xe0 = 0x20)
      (hrep : readRep huff (c :: s) = some (rep, t)) (hindex : rep.index ≤ 61)
      (next : ReadsStatic huff t) : ReadsStatic huff (c :: s)

/-- A block that neither adds to the dynamic table nor changes its size. -/
inductive KeepsTable (huff : Bytes → Option Bytes) : Bytes → Prop where
  | nil : KeepsTable huff []
  | field {c : UInt8} {s t : Bytes} {rep : Rep} (hc : ¬ c &&& 0xe0 = 0x20)
      (hrep : readRep huff (c :: s) = some (rep, t)) (hadds : rep.adds = false)
      (next : KeepsTable huff t) : KeepsTable huff (c :: s)

/-- No frame of the other direction has changed the table. -/
def Untouched (huff : Bytes → Option Bytes) (dir : Bool) (before : List Proto) : Prop :=
  ∀ q ∈ before, q.isServer ≠ dir → ∀ s, q.block = some s → KeepsTable huff s

/-- **Frames that keep the directions apart**: one that reads the dynamic table comes before
any of the other direction that changes it. -/
def Apart (huff : Bytes → Option Bytes) (before ps : List Proto) : Prop :=
  ∀ mid p post, ps = mid ++ p :: post →
    (∀ s, p.block = some s → ReadsStatic huff s) ∨ Untouched huff p.isServer (before ++ mid)

theorem apart_nil {before : List Proto} : Apart huff before [] :=
  fun mid p post h => absurd h (by simp)

theorem apart_cons {before : List Proto} : Apart huff before (p :: ps) ↔
    ((∀ s, p.block = some s → ReadsStatic huff s) ∨ Untouched huff p.isServer before) ∧
      Apart huff (before ++ [p]) ps := by
  constructor
  · intro h
    refine ⟨by simpa using h [] p ps rfl, ?_⟩
    intro mid q post hps
    have hq := h (p :: mid) q post (by rw [hps, cons_append])
    rwa [append_cons] at hq
  · rintro ⟨hfirst, hrest⟩ mid q post hps
    cases mid with
    | nil =>
      obtain ⟨rfl, -⟩ : p = q ∧ ps = post := by simpa using hps
      simpa using hfirst
    | cons a mid =>
      obtain ⟨rfl, hmid⟩ : p = a ∧ ps = mid ++ q :: post := by simpa using hps
      rw [append_cons]
      exact hrest mid q post hmid

theorem means_static {rep : Rep} (h : rep.index ≤ 61) (d o : Dec) : d.means rep = o.means rep := by
  have hentry : ∀ index ≤ 61, d.entry index = o.entry index := by
    intro index hindex
    unfold Dec.entry
    rw [if_pos hindex, if_pos hindex]
  cases rep with
  | indexed index => exact hentry index h
  | literal add index name value =>
    simp only [Dec.means, Dec.literalName]
    rw [hentry index h]

theorem ReadsStatic.agree (h : ReadsStatic huff s) (d o : Dec) : Agree huff d o s := by
  induction h generalizing d o with
  | nil => exact .nil d o
  | update hc hint next ih => exact .update hc hint (ih _ _)
  | field hc hrep hindex next ih => exact .field hc hrep (means_static hindex d o) (ih _ _)

theorem apply_keeps {rep : Rep} {f : Field} (hadds : rep.adds = false)
    (h : d.apply rep = some (f, d')) : d' = d := by
  obtain ⟨-, -, hd'⟩ := apply_eq_some.1 h
  rwa [hadds, if_neg Bool.false_ne_true] at hd'

theorem KeepsTable.readsTo (hkeeps : KeepsTable huff s) (h : ReadsTo huff d s fs d' []) :
    d' = d := by
  induction hkeeps generalizing d fs with
  | nil =>
    cases h
    rfl
  | field hc hrep hadds next ih =>
    cases h with
    | update hc' => exact absurd hc' hc
    | field _ hrep' happ hnext =>
      cases hrep.symm.trans hrep'
      rw [ih hnext, apply_keeps hadds happ]

/-- Where the other direction has changed nothing, the one table is the own one. -/
def Watch.Shared (huff : Bytes → Option Bytes) (w : Watch) (before : List Proto) : Prop :=
  ∀ dir, Untouched huff dir before → decoderOf w.channel = w.own dir

theorem watch_shared (fl : Filters) {before : List Proto} {sent : List (List Field)}
    (hlevel : w.Level) (hshared : w.Shared huff before) (hsep : Separated huff w p)
    (henc : Encodes huff (w.own p.isServer) (p :: ps) sent) :
    (watch huff fl w p).1.Shared huff (before ++ [p]) := by
  have hd : decoderOf (doHttp2Frame huff fl w.channel p).1 =
      (decodeFrame huff (decoderOf w.channel) p).1 :=
    congrArg Prod.fst (doHttp2Frame_decodes huff fl w.channel p)
  intro dir huntouched
  have hbefore : Untouched huff dir before :=
    fun q hq => huntouched q (mem_append_left _ hq)
  have hown := hshared dir hbefore
  by_cases hdir : dir = p.isServer
  · subst hdir
    simp only [watch, update_self]
    rw [hd, hown]
  · simp only [watch, update_of_ne hdir]
    rw [hd, ← hown, decodeFrame]
    cases hb : p.block with
    | none => rfl
    | some s =>
      simp only [Encodes, hb] at henc
      obtain ⟨o', fs, more, hreads, -, -⟩ := henc
      obtain ⟨d', hread⟩ := (hsep s hb).readsTo hreads (hlevel p.isServer)
      have hkeeps := huntouched p (by simp) (Ne.symm hdir) s hb
      rw [elim_some, hread.decodeBlock_eq, hkeeps.readsTo hread]

/-- **A run of frames that keep the directions apart** is one in which the tables agree. -/
theorem along_separated {before : List Proto} {sent : Bool → List (List Field)}
    (hlevel : w.Level) (hshared : w.Shared huff before)
    (henc : ∀ dir, Encodes huff (w.own dir) (sentBy dir ps) (sent dir))
    (hapart : Apart huff before ps) : Along (watch huff fl) (Separated huff) w ps := by
  induction ps generalizing w before sent with
  | nil => trivial
  | cons p ps ih =>
    obtain ⟨hp, hps⟩ := apart_cons.1 hapart
    have hfirst := henc p.isServer
    rw [sentBy_cons_self] at hfirst
    have hsep : Separated huff w p := by
      intro s hs
      rcases hp with hstatic | huntouched
      · exact (hstatic s hs).agree _ _
      · simp only [Encodes, hs] at hfirst
        obtain ⟨o', fs, more, hreads, -, -⟩ := hfirst
        rw [hshared p.isServer huntouched]
        exact hreads.agree
    obtain ⟨fs, more, hsent, -, hmore, hlevel'⟩ := watch_step fl hlevel hsep hfirst
    exact ⟨hsep, ih hlevel' (watch_shared fl hlevel hshared hsep hfirst)
      (encodes_next hmore henc) hps⟩

def post (isServer : Bool) (block : Bytes) : Proto := posted isServer (mkFrame 1 4 1 block)

theorem block_post {isServer : Bool} {block : Bytes} (hlen : block.length < 2 ^ 24) :
    (post isServer block).block = some block := by
  have hh : frameHeader (mkFrame 1 4 1 block) = some ⟨block.length, (1 : UInt8).toNat, 4, 1⟩ :=
    frameHeader_mkFrame hlen (by decide) (by decide)
  have hb : (⟨block.length, (1 : UInt8).toNat, 4, 1⟩ : Header).hasBlock := Or.inl rfl
  simp only [Proto.block, post, posted, hh, bind_some, if_pos hb]
  rw [headerData_mkFrame (by decide) (by decide) (by decide)]

def fieldAB : Field := ⟨[97], [98]⟩

def fieldCD : Field := ⟨[99], [100]⟩

def addAB : Bytes := [0x40, 1, 97, 1, 98]

def addCD : Bytes := [0x40, 1, 99, 1, 100]

def lastAdded : Bytes := [0xbe]

def status200 : Bytes := [0x88]

theorem reads_add {n v : UInt8} :
    ReadsTo plainHuff d [0x40, 1, n, 1, v] [⟨[n], [v]⟩] (d.pushEntry ⟨[n], [v]⟩) [] :=
  .field (by decide) rfl (by simp [Dec.apply, Dec.literalName, Fits, outSize]) (.here _ _)

theorem reads_status200 : ReadsTo plainHuff d status200 [⟨octets ":status", octets "200"⟩] d [] :=
  .field (by decide) (show readRep plainHuff status200 = some (.indexed 8, []) from rfl)
    (by rfl) (.here _ _)

theorem readsStatic_status200 : ReadsStatic plainHuff status200 :=
  .field (by decide) (show readRep plainHuff status200 = some (.indexed 8, []) from rfl)
    (show 8 ≤ 61 by decide) .nil

theorem keepsTable_status200 : KeepsTable plainHuff status200 :=
  .field (by decide) (show readRep plainHuff status200 = some (.indexed 8, []) from rfl) rfl .nil

theorem reads_lastAdded (h : d.apply (.indexed 62) = some (fieldAB, d)) :
    ReadsTo plainHuff d lastAdded [fieldAB] d [] :=
  .field (by decide) (show readRep plainHuff lastAdded = some (.indexed 62, []) from rfl) h
    (.here _ _)

theorem encodes_sent : Encodes plainHuff Channel.new.decoder
    [post true addAB, post true lastAdded] [[fieldAB], [fieldAB]] := by
  have hlast : (Channel.new.decoder.pushEntry fieldAB).apply (.indexed 62) =
      some (fieldAB, Channel.new.decoder.pushEntry fieldAB) := by decide +kernel
  simp only [Encodes, block_post (show addAB.length < 2 ^ 24 by decide),
    block_post (show lastAdded.length < 2 ^ 24 by decide)]
  exact ⟨_, _, _, reads_add, rfl, _, _, _, reads_lastAdded hlast, rfl, rfl⟩

end AppView.Http2

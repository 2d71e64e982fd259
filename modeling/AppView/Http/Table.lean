import AppView.Http.Buffers
import AppView.Http.Segmentation

/-!
# What a channel reads of the descriptor table

A report of HTTP/1 looks up the descriptor that its header was started on, and nothing else in
`httpstate.c` looks at the table.
-/

namespace AppView.Http

def OwnId (fd : ℤ) (st : HttpState) : Prop :=
  st.state = .httpHdr ∨ st.state = .httpHdrEnd → st.id.sockfd = fd

variable {fd : ℤ} {st : HttpState} {env : HttpEnv} {g : ℤ → Option NetInfo}

theorem OwnId.reset (fd : ℤ) (st : HttpState) : OwnId fd (setHttpState st .httpNone) := by
  rintro (h | h) <;> cases h

theorem headerLoop_table (fuel : ℕ) (st : HttpState) (rest : List UInt8) :
    headerLoop { env with getNetEntry := g } fuel st rest = headerLoop env fuel st rest := by
  induction fuel generalizing st rest with
  | zero => rfl
  | succ fuel ih =>
    simp only [headerLoop, ih]
    rfl

theorem reportHttp1_table (h : st.hdr ≠ [] → st.id.sockfd = fd) (hg : g fd = env.getNetEntry fd) :
    reportHttp1 { env with getNetEntry := g } st = reportHttp1 env st := by
  rw [reportHttp1, reportHttp1]
  by_cases hnil : st.hdr = []
  · rw [if_pos hnil, if_pos hnil]
  · rw [if_neg hnil, if_neg hnil]
    dsimp only
    rw [h hnil, hg]

theorem endOfHeaders_table (h : OwnId fd st) (hs : st.state = .httpHdrEnd)
    (hg : g fd = env.getNetEntry fd) (rest : List UInt8) :
    endOfHeaders { env with getNetEntry := g } st rest = endOfHeaders env st rest := by
  set st' := appendHeader env st [0] with hst'
  have hid : st'.hdr ≠ [] → st'.id.sockfd = fd := by
    intro hhdr
    rcases appendHeader_or env st [0] with hreset | ⟨a, happend⟩
    · rw [hst', hreset] at hhdr
      exact absurd rfl hhdr
    · rw [hst', happend]
      exact h (.inr hs)
  have happend : appendHeader { env with getNetEntry := g } st [0] = st' := rfl
  have hreport : ∀ x : HttpState, x.hdr = st'.hdr → x.id = st'.id →
      reportHttp1 { env with getNetEntry := g } x = reportHttp1 env x := by
    intro x hhdr hsame
    refine reportHttp1_table (fun hx => ?_) hg
    rw [hsame]
    exact hid (hhdr ▸ hx)
  rw [endOfHeaders, endOfHeaders]
  rw [happend, hreport
    { st' with
      isResponse := st'.hdr ≠ [] ∧
        (searchExec gHttpStart st'.hdr (searchLen gHttpStart)).isSome = true
      hasUpgrade := env.upgradeMatch st'.hdr
      hasConnectionUpgrade := env.connectMatch st'.hdr } rfl rfl]
  rfl

theorem OwnId.endOfHeaders (env : HttpEnv) (st : HttpState) (rest : List UInt8) :
    OwnId fd (endOfHeaders env st rest).1 := by
  rcases endOfHeaders_cases env st rest with ⟨x, hx⟩ | ⟨hstate, -, -⟩
  · rw [hx]
    exact OwnId.reset fd x
  · rw [OwnId, hstate]
    rintro (h | h) <;> cases h

variable {httpId : HttpId}

theorem OwnId.invariant (env : HttpEnv) (hfd : httpId.sockfd = fd) :
    Http1Invariant env httpId (OwnId fd) where
  reset st _ := OwnId.reset fd st
  skip _ _ h _ := h
  start _ _ _ _ := hfd
  append st s bs h hst hs := by
    rcases appendHeader_or env (setHttpState st s) bs with hreset | ⟨a, happend⟩
    · rw [hreset]
      exact OwnId.reset fd _
    · rw [happend]
      rcases hs with rfl | ⟨rfl, -⟩ <;> exact fun _ => h hst
  finish st rest _ _ := OwnId.endOfHeaders env st rest

theorem OwnId.parseHeaders (h : OwnId fd st) (hg : g fd = env.getNetEntry fd) (buf : List UInt8) :
    parseHeaders { env with getNetEntry := g } st buf = parseHeaders env st buf := by
  have hid := headerLoop_invariant (@OwnId.invariant fd { sockfd := fd } env rfl).append h
    (buf.length + 1) buf
  rw [Http.parseHeaders, Http.parseHeaders, headerLoop_table]
  rcases hend : headerLoop env (buf.length + 1) st buf with ⟨st', _ | rest⟩
  · rfl
  · rw [hend] at hid
    dsimp only
    rw [endOfHeaders_table hid (headerLoop_end hend).1 hg]

theorem OwnId.parseHttp1 (h : OwnId fd st) (hg : g fd = env.getNetEntry fd) (buf : List UInt8)
    (hfd : httpId.sockfd = fd) :
    parseHttp1 { env with getNetEntry := g } st buf httpId = parseHttp1 env st buf httpId ∧
      OwnId fd (parseHttp1 env st buf httpId).state := by
  have hinv := OwnId.invariant env hfd
  refine ⟨?_, hinv.parseHttp1 h buf⟩
  rcases parseHttp1_cases st buf httpId with ⟨st', -, hparse⟩ | ⟨st', part, hfrom, hparse⟩
  · rw [hparse, hparse]
  · rw [hparse, hparse]
    exact (hinv.parsesFrom h hfrom).parseHeaders hg part

theorem parseHttp2Loop_cases (env : HttpEnv) (net : Option NetInfo) (buf : List UInt8)
    (httpId : HttpId) (fuel : ℕ) (st : HttpState) (bufPos : List UInt8) (ret : Bool) :
    (∃ stash found, parseHttp2Loop env net buf httpId (fuel + 1) st bufPos ret =
      ⟨{ st with http2Buf := stash }, [], found⟩) ∨
    ∃ posts pos n later ret', (posts = [] ∨ posts = (reportHttp2 env st net pos n httpId).1) ∧
      (parseHttp2Loop env net buf httpId (fuel + 1) st bufPos ret).state =
        (parseHttp2Loop env net buf httpId fuel
          { st with http2Buf := { st.http2Buf with buf := [] } } later ret').state ∧
      (parseHttp2Loop env net buf httpId (fuel + 1) st bufPos ret).posts =
        posts ++ (parseHttp2Loop env net buf httpId fuel
          { st with http2Buf := { st.http2Buf with buf := [] } } later ret').posts := by
  rw [parseHttp2Loop]
  split_ifs with hnil
  · exact .inl ⟨st.http2Buf, ret, rfl⟩
  dsimp only
  generalize (if bufPos.length ≥ http2MagicLen ∧ http2Magic <+: buf then
    bufPos.drop http2MagicLen else bufPos) = pos
  split_ifs with hdone hhead hframe htype
  · exact .inl ⟨st.http2Buf, false, rfl⟩
  · exact .inl ⟨_, false, rfl⟩
  · exact .inl ⟨_, false, rfl⟩
  · exact .inr ⟨_, pos, http2GetFrameLength st.http2Buf pos + 9, _, _, .inr rfl, rfl, rfl⟩
  · exact .inr ⟨_, pos, http2GetFrameLength st.http2Buf pos + 9, _, _, .inl rfl, rfl, rfl⟩

/-- **HTTP/2** leaves the state and its id alone. -/
theorem parseHttp2_state (env : HttpEnv) (st : HttpState) (net : Option NetInfo)
    (buf : List UInt8) (httpId : HttpId) :
    ∃ stash, (parseHttp2 env st net buf httpId).state = { st with http2Buf := stash } := by
  have hloop : ∀ fuel bufPos ret st, ∃ stash,
      (parseHttp2Loop env net buf httpId fuel st bufPos ret).state =
        { st with http2Buf := stash } := by
    intro fuel
    induction fuel with
    | zero => exact fun _ _ st => ⟨st.http2Buf, rfl⟩
    | succ fuel ih =>
      intro bufPos ret st
      rcases parseHttp2Loop_cases env net buf httpId fuel st bufPos ret with
        ⟨stash, found, hstop⟩ | ⟨posts, pos, n, later, ret', -, hstate, -⟩
      · exact ⟨stash, by rw [hstop]⟩
      · obtain ⟨stash, hnext⟩ :=
          ih later ret' { st with http2Buf := { st.http2Buf with buf := [] } }
        exact ⟨stash, by rw [hstate, hnext]⟩
  rw [parseHttp2]
  split_ifs
  · exact ⟨st.http2Buf, rfl⟩
  · exact hloop _ _ _ _

theorem parseHttp2_table (st : HttpState) (net : Option NetInfo) (buf : List UInt8)
    (httpId : HttpId) :
    parseHttp2 { env with getNetEntry := g } st net buf httpId =
      parseHttp2 env st net buf httpId := by
  have hloop : ∀ fuel st bufPos ret,
      parseHttp2Loop { env with getNetEntry := g } net buf httpId fuel st bufPos ret =
        parseHttp2Loop env net buf httpId fuel st bufPos ret := by
    intro fuel
    induction fuel with
    | zero => exact fun _ _ _ => rfl
    | succ fuel ih =>
      intro st bufPos ret
      simp only [parseHttp2Loop, ih]
      rfl
  rw [parseHttp2, parseHttp2, hloop]

def OwnIds (fd : ℤ) (states : HttpDirection → HttpState) : Prop := ∀ d, OwnId fd (states d)

variable {states : HttpDirection → HttpState}

theorem OwnIds.setVersions (h : OwnIds fd states) (v : ℕ) : OwnIds fd (setVersions states v) :=
  fun d => h d

theorem OwnIds.update (h : OwnIds fd states) {d : HttpDirection} (hst : OwnId fd st) :
    OwnIds fd (Function.update states d st) :=
  (Function.forall_update_iff states fun _ st => OwnId fd st).2 ⟨hst, fun e _ => h e⟩

theorem OwnIds.doHttpVersion (h : OwnIds fd states) (hg : g fd = env.getNetEntry fd)
    (net : Option NetInfo) (buf : List UInt8) (d : HttpDirection) (hfd : httpId.sockfd = fd) :
    doHttpVersion { env with getNetEntry := g } states net buf d httpId =
        doHttpVersion env states net buf d httpId ∧
      OwnIds fd (doHttpVersion env states net buf d httpId).state := by
  obtain ⟨hsame, hid⟩ := (h d).parseHttp1 hg buf hfd
  obtain ⟨stash, hstash⟩ := parseHttp2_state env (states d) net buf httpId
  rw [Http.doHttpVersion, Http.doHttpVersion, hsame, parseHttp2_table]
  refine ⟨rfl, ?_⟩
  dsimp only
  split_ifs
  · refine ((h.update hid).setVersions 2).update ?_
    exact (h.update hid).setVersions 2 d
  · exact h.update hid
  · rw [hstash]
    exact h.update (h d)
  · exact h

theorem doHttpBuffer_cases (states : HttpDirection → HttpState) (buf : List UInt8) (src : MetricT)
    (httpId : HttpId) : ∃ states', (states' = states ∨ ∃ v, states' = setVersions states v) ∧
      ((∀ env net, doHttpBuffer env states net buf src httpId = ⟨states', [], false⟩) ∨
        ∃ part, ∀ env net, doHttpBuffer env states net buf src httpId =
          doHttpVersion env states' net part (directionOf src) httpId) := by
  have hd : (if isSend src then HttpDirection.httpTx else .httpRx) = directionOf src := rfl
  simp only [doHttpBuffer, hd]
  split_ifs
  · exact ⟨_, .inr ⟨2, rfl⟩, .inr ⟨_, fun _ _ => rfl⟩⟩
  · exact ⟨_, .inr ⟨2, rfl⟩, .inl fun _ _ => rfl⟩
  · exact ⟨_, .inr ⟨1, rfl⟩, .inr ⟨_, fun _ _ => rfl⟩⟩
  · exact ⟨_, .inl rfl, .inl fun _ _ => rfl⟩
  · exact ⟨_, .inl rfl, .inr ⟨_, fun _ _ => rfl⟩⟩

theorem OwnIds.doHttpBuffer (h : OwnIds fd states) (hg : g fd = env.getNetEntry fd)
    (net : Option NetInfo) (buf : List UInt8) (src : MetricT) (hfd : httpId.sockfd = fd) :
    doHttpBuffer { env with getNetEntry := g } states net buf src httpId =
        doHttpBuffer env states net buf src httpId ∧
      OwnIds fd (doHttpBuffer env states net buf src httpId).state := by
  obtain ⟨states', hversions, hdo⟩ := doHttpBuffer_cases states buf src httpId
  have h' : OwnIds fd states' := by
    rcases hversions with rfl | ⟨v, rfl⟩
    · exact h
    · exact h.setVersions v
  rcases hdo with hdo | ⟨part, hdo⟩
  · rw [hdo, hdo]
    exact ⟨rfl, h'⟩
  · rw [hdo, hdo]
    exact h'.doHttpVersion hg net part _ hfd

theorem OwnIds.doHttpIov (h : OwnIds fd states) (hg : g fd = env.getNetEntry fd)
    (net : NetInfo) (src : MetricT) (hfd : httpId.sockfd = fd) (iov : List (Option (List UInt8))) :
    doHttpIov { env with getNetEntry := g } net src httpId states iov =
        doHttpIov env net src httpId states iov ∧
      OwnIds fd (doHttpIov env net src httpId states iov).state := by
  induction iov generalizing states with
  | nil => exact ⟨rfl, h⟩
  | cons base iov ih =>
    cases base with
    | none => exact ih h
    | some base =>
      obtain ⟨hbuffer, hids⟩ := h.doHttpBuffer hg (some net) base src hfd
      obtain ⟨hrest, hids⟩ := ih hids
      rw [Http.doHttpIov, Http.doHttpIov]
      rw [hbuffer, hrest]
      exact ⟨rfl, hids⟩

/-- **Of the table, a call reads the entry of its own descriptor.** -/
theorem OwnIds.doHttp {net : NetInfo} (h : OwnIds fd net.http) (hg : g fd = env.getNetEntry fd)
    (data : SrcData) (len : ℕ) (src : MetricT) :
    doHttp { env with getNetEntry := g } fd net data len src = doHttp env fd net data len src ∧
      OwnIds fd (doHttp env fd net data len src).state.http := by
  rw [Http.doHttp, Http.doHttp]
  split_ifs with hstream
  · exact ⟨rfl, h⟩
  · have hfd : (setHttpId net fd src).sockfd = fd := rfl
    cases data with
    | buf buf =>
      obtain ⟨hsame, hids⟩ := h.doHttpBuffer hg (some net) buf src hfd
      dsimp only
      rw [hsame]
      exact ⟨rfl, hids⟩
    | msg iov =>
      obtain ⟨hsame, hids⟩ := h.doHttpIov hg net src hfd iov
      dsimp only
      rw [hsame]
      exact ⟨rfl, hids⟩
    | iov iov =>
      obtain ⟨hsame, hids⟩ := h.doHttpIov hg net src hfd (iov.take len)
      dsimp only
      rw [hsame]
      exact ⟨rfl, hids⟩
    | other => exact ⟨rfl, h⟩

end AppView.Http

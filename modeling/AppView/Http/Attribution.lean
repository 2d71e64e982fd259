import AppView.Http.Separation
import AppView.Http.Table

/-!
# Which direction a frame of HTTP/2 is from

`reportHttp2` takes the direction and the TLS flag of a frame from the id in the state of its
direction. **`frame_attribution`**: for every sequence of calls of `doHttp` on a connection,
which frames carry the direction and the flag of the buffer that completed them.
-/

namespace AppView.Http

open AppView.Framework List

/-! ## Calls and their buffers -/

structure Handed where
  env : HttpEnv
  net : NetInfo
  sockfd : ℤ
  src : MetricT
  buf : List UInt8

def Handed.httpId (b : Handed) : HttpId := setHttpId b.net b.sockfd b.src

def bufferStep (states : HttpDirection → HttpState) (b : Handed) :
    (HttpDirection → HttpState) × List ProtocolInfo :=
  let r := doHttpBuffer b.env states (some b.net) b.buf b.src b.httpId
  (r.state, r.posts)

structure HttpCall where
  env : HttpEnv
  sockfd : ℤ
  data : SrcData
  len : ℕ
  src : MetricT

def callStep (net : NetInfo) (c : HttpCall) : NetInfo × List ProtocolInfo :=
  let r := doHttp c.env c.sockfd net c.data c.len c.src
  (r.state, r.posts)

def HttpCall.hand (net : NetInfo) (c : HttpCall) (buf : List UInt8) : Handed :=
  ⟨c.env, net, c.sockfd, c.src, buf⟩

def HttpCall.handed (net : NetInfo) (c : HttpCall) : List Handed :=
  if c.len = 0 ∨ net.type ≠ sockStream then []
  else
    match c.data with
    | .buf buf => [c.hand net buf]
    | .msg iov => iov.reduceOption.map (c.hand net)
    | .iov iov => (iov.take c.len).reduceOption.map (c.hand net)
    | .other => []

def handed (net : NetInfo) : List HttpCall → List Handed
  | [] => []
  | c :: cs => c.handed net ++ handed (callStep net c).1 cs

variable (net : NetInfo) (c : HttpCall)

theorem doHttpIov_eq_run (states : HttpDirection → HttpState) (iov : List (Option (List UInt8))) :
    (doHttpIov c.env net c.src (setHttpId net c.sockfd c.src) states iov).state =
        (run bufferStep states (iov.reduceOption.map (c.hand net))).1 ∧
      (doHttpIov c.env net c.src (setHttpId net c.sockfd c.src) states iov).posts =
        (run bufferStep states (iov.reduceOption.map (c.hand net))).2.flatten := by
  induction iov generalizing states with
  | nil => exact ⟨rfl, rfl⟩
  | cons base iov ih =>
    cases base with
    | none => exact ih states
    | some base =>
      obtain ⟨hstate, hposts⟩ := ih
        (doHttpBuffer c.env states (some net) base c.src (setHttpId net c.sockfd c.src)).state
      rw [reduceOption_cons_of_some, map_cons, run_cons, flatten_cons, doHttpIov]
      exact ⟨hstate, congrArg _ hposts⟩

theorem callStep_eq_run : (callStep net c).1.http = (run bufferStep net.http (c.handed net)).1 ∧
      (callStep net c).2 = (run bufferStep net.http (c.handed net)).2.flatten := by
  rw [callStep, doHttp, HttpCall.handed]
  split_ifs with hstream
  · exact ⟨rfl, rfl⟩
  · cases c.data with
    | buf buf => exact ⟨rfl, (append_nil _).symm⟩
    | msg iov => exact doHttpIov_eq_run net c net.http iov
    | iov iov => exact doHttpIov_eq_run net c net.http (iov.take c.len)
    | other => exact ⟨rfl, rfl⟩

theorem callStep_net : (callStep net c).1 = { net with http := (callStep net c).1.http } := by
  rw [callStep, doHttp]
  split_ifs
  · rfl
  · cases c.data <;> rfl

/-- **A run of calls is the run of their buffers.** -/
theorem run_calls (calls : List HttpCall) :
    (run callStep net calls).1.http = (run bufferStep net.http (handed net calls)).1 ∧
      (run callStep net calls).2.flatten =
        (run bufferStep net.http (handed net calls)).2.flatten := by
  induction calls generalizing net with
  | nil => exact ⟨rfl, rfl⟩
  | cons c cs ih =>
    obtain ⟨hhttp, hposts⟩ := callStep_eq_run net c
    obtain ⟨hstate, hrest⟩ := ih (callStep net c).1
    rw [hhttp] at hstate hrest
    rw [run_cons, handed, run_append, flatten_cons, flatten_append]
    exact ⟨hstate, by rw [hposts, hrest]⟩

variable {b : Handed} {buf : List UInt8} {id : HttpId}

theorem uid_of_mem_handed {net : NetInfo} {calls : List HttpCall} (hb : b ∈ handed net calls) :
    b.net.uid = net.uid := by
  induction calls generalizing net with
  | nil => cases hb
  | cons c cs ih =>
    rcases mem_append.1 hb with hb | hb
    · rw [HttpCall.handed] at hb
      split_ifs at hb
      · cases hb
      · have hcall : ∀ bufs : List (List UInt8), b ∈ bufs.map (c.hand net) →
            b.net.uid = net.uid := by
          intro bufs hmem
          obtain ⟨buf, -, rfl⟩ := mem_map.1 hmem
          rfl
        cases hdata : c.data with
        | buf buf =>
          rw [hdata] at hb
          exact hcall [buf] hb
        | msg iov | iov iov =>
          rw [hdata] at hb
          exact hcall _ hb
        | other =>
          rw [hdata] at hb
          cases hb
    · rw [ih hb, callStep_net]

/-! ## The id in a state -/

structure Remembers (P : HttpId → Prop) (st : HttpState) : Prop where
  none : st.state = .httpNone → st.id = {}
  id : st.id = {} ∨ P st.id

variable {P Q : HttpId → Prop} {st : HttpState} {env : HttpEnv}

theorem Remembers.mono (h : Remembers P st) (hPQ : ∀ id, P id → Q id) : Remembers Q st :=
  ⟨h.none, h.id.imp_right (hPQ st.id)⟩

theorem Remembers.reset (st : HttpState) : Remembers P (setHttpState st .httpNone) :=
  ⟨fun _ => rfl, .inl rfl⟩

theorem Remembers.going (h : Remembers P st) {st' : HttpState} (hid : st'.id = st.id)
    (hstate : st'.state ≠ .httpNone) : Remembers P st' :=
  ⟨fun hnone => absurd hnone hstate, hid ▸ h.id⟩

theorem reportHttp1_id (env : HttpEnv) (st : HttpState) : (reportHttp1 env st).1.id = st.id := by
  rw [reportHttp1]
  split_ifs <;> rfl

theorem Remembers.endOfHeaders (h : Remembers P st) (env : HttpEnv) (rest : List UInt8) :
    Remembers P (endOfHeaders env st rest).1 := by
  have hid : (appendHeader env st [0]).id = {} ∨ P (appendHeader env st [0]).id := by
    rcases appendHeader_or env st [0] with hreset | ⟨a, happend⟩
    · exact .inl (by rw [hreset]; rfl)
    · rw [happend]
      exact h.id
  rw [Http.endOfHeaders]
  cases getContentLength env (appendHeader env st [0]).hdr with
  | none => exact Remembers.reset _
  | some clen =>
    dsimp only
    split_ifs
    · refine ⟨HttpEnum.noConfusion, ?_⟩
      rw [reportHttp1_id]
      exact hid
    · exact Remembers.reset _

variable {httpId : HttpId} {p : ProtocolInfo}

/-- **HTTP/1** writes the id of the buffer where a header starts. -/
theorem Remembers.invariant (env : HttpEnv) (hid : P httpId) :
    Http1Invariant env httpId (Remembers P) where
  reset st _ := Remembers.reset st
  skip _ _ h hdata := h.going rfl (by rw [hdata]; exact HttpEnum.noConfusion)
  start _ _ _ := ⟨HttpEnum.noConfusion, .inr hid⟩
  append st s bs h _ hs := by
    rcases appendHeader_or env (setHttpState st s) bs with hreset | ⟨a, happend⟩
    · rw [hreset]
      exact Remembers.reset _
    · rw [happend]
      rcases hs with rfl | ⟨rfl, -⟩ <;> exact h.going rfl HttpEnum.noConfusion
  finish st rest h _ := h.endOfHeaders env rest

/-! ## The events -/

theorem reportHttp1_ptype (hp : p ∈ (reportHttp1 env st).2) : p.ptype ≠ .evtH2frame := by
  rw [reportHttp1] at hp
  split_ifs at hp
  · cases hp
  · cases hp
  · rw [mem_singleton.1 hp]
    exact MetricT.noConfusion
  · rw [mem_singleton.1 hp]
    exact MetricT.noConfusion

theorem parseHttp1_ptype (hp : p ∈ (parseHttp1 env st buf httpId).posts) :
    p.ptype ≠ .evtH2frame := by
  have hany : Http1Invariant env httpId fun _ => True :=
    ⟨fun _ _ => trivial, fun _ _ _ _ => trivial, fun _ _ _ => trivial,
      fun _ _ _ _ _ _ => trivial, fun _ _ _ _ => trivial⟩
  obtain ⟨st', rest, -, -, hend⟩ := hany.posts trivial hp
  rw [endOfHeaders_snd] at hend
  exact reportHttp1_ptype hend

structure FrameOf (id httpId : HttpId) (p : ProtocolInfo) : Prop where
  isServer : p.isServer = isSend id.src
  ssl : p.data.ssl = id.isSsl
  post : p.data.id = id
  uid : p.uid = httpId.uid
  fd : p.fd = httpId.sockfd

theorem reportHttp2_frameOf {net : Option NetInfo} {n : ℕ}
    (hp : p ∈ (reportHttp2 env st net buf n httpId).1) : FrameOf st.id httpId p := by
  rw [reportHttp2] at hp
  split_ifs at hp
  · cases hp
  · rw [mem_singleton.1 hp]
    exact ⟨rfl, rfl, rfl, rfl, rfl⟩

theorem parseHttp2Loop_frames (env : HttpEnv) (net : Option NetInfo) (buf : List UInt8)
    (httpId : HttpId) (fuel : ℕ) (st : HttpState) (bufPos : List UInt8) (ret : Bool) :
    ∀ p ∈ (parseHttp2Loop env net buf httpId fuel st bufPos ret).posts, FrameOf st.id httpId p := by
  induction fuel generalizing st bufPos ret with
  | zero => exact forall_mem_nil _
  | succ fuel ih =>
    rcases parseHttp2Loop_cases env net buf httpId fuel st bufPos ret with
      ⟨stash, found, hstop⟩ | ⟨posts, pos, n, later, ret', hposts, -, hall⟩
    · rw [hstop]
      exact forall_mem_nil _
    · rw [hall]
      intro p hp
      rcases mem_append.1 hp with hp | hp
      · rcases hposts with rfl | rfl
        · cases hp
        · exact reportHttp2_frameOf hp
      · exact ih { st with http2Buf := { st.http2Buf with buf := [] } } later ret' p hp

theorem parseHttp2_frames (env : HttpEnv) (st : HttpState) (net : Option NetInfo)
    (buf : List UInt8) (httpId : HttpId) :
    ∀ p ∈ (parseHttp2 env st net buf httpId).posts, FrameOf st.id httpId p := by
  rw [parseHttp2]
  split_ifs
  · exact forall_mem_nil _
  · exact parseHttp2Loop_frames env net buf httpId _ st buf false

/-! ## Both directions -/

def AllRemember (P : HttpDirection → HttpId → Prop) (states : HttpDirection → HttpState) : Prop :=
  ∀ d, Remembers (P d) (states d)

section Both

variable {P : HttpDirection → HttpId → Prop} {states : HttpDirection → HttpState}

variable {d : HttpDirection}

theorem AllRemember.update (h : AllRemember P states) (hst : Remembers (P d) st) :
    AllRemember P (Function.update states d st) :=
  (Function.forall_update_iff states fun d st => Remembers (P d) st).2 ⟨hst, fun e _ => h e⟩

theorem AllRemember.setVersions (h : AllRemember P states) (v : ℕ) :
    AllRemember P (setVersions states v) :=
  fun d => ⟨(h d).none, (h d).id⟩

theorem AllRemember.doHttpVersion (h : AllRemember P states) (env : HttpEnv)
    (net : Option NetInfo) (buf : List UInt8) (hid : P d httpId) :
    AllRemember P (doHttpVersion env states net buf d httpId).state ∧
      ∀ p ∈ (doHttpVersion env states net buf d httpId).posts, p.ptype = .evtH2frame →
        FrameOf (states d).id httpId p := by
  have hupdate := h.update ((Remembers.invariant env hid).parseHttp1 (h d) buf)
  obtain ⟨stash, hstash⟩ := parseHttp2_state env (states d) net buf httpId
  rw [Http.doHttpVersion]
  dsimp only
  split_ifs
  · refine ⟨(hupdate.setVersions 2).update ?_, ?_⟩
    · exact ⟨(hupdate.setVersions 2 d).none, (hupdate.setVersions 2 d).id⟩
    · exact fun p hp hframe => absurd hframe (parseHttp1_ptype hp)
  · exact ⟨hupdate, fun p hp hframe => absurd hframe (parseHttp1_ptype hp)⟩
  · refine ⟨h.update ?_, fun p hp _ => parseHttp2_frames env _ net buf httpId p hp⟩
    rw [hstash]
    exact ⟨(h d).none, (h d).id⟩
  · exact ⟨h, forall_mem_nil _⟩

/-- **One buffer**: the ids stay what they were or become that of the buffer, and a frame is
posted with the id that was there before. -/
theorem AllRemember.bufferStep (h : AllRemember P states) {b : Handed}
    (hid : P (directionOf b.src) b.httpId) : AllRemember P (bufferStep states b).1 ∧
      ∀ p ∈ (bufferStep states b).2, p.ptype = .evtH2frame →
        FrameOf (states (directionOf b.src)).id b.httpId p := by
  obtain ⟨states', hversions, hdo⟩ := doHttpBuffer_cases states b.buf b.src b.httpId
  have h' : AllRemember P states' ∧ ∀ d, (states' d).id = (states d).id := by
    rcases hversions with rfl | ⟨v, rfl⟩
    · exact ⟨h, fun _ => rfl⟩
    · exact ⟨h.setVersions v, fun _ => rfl⟩
  rw [Http.bufferStep]
  rcases hdo with hdo | ⟨part, hdo⟩
  · rw [hdo]
    exact ⟨h'.1, forall_mem_nil _⟩
  · rw [hdo, ← h'.2]
    exact h'.1.doHttpVersion b.env (some b.net) part hid

end Both

def FromBuffer (before : List Handed) (d : HttpDirection) (id : HttpId) : Prop :=
  ∃ b ∈ before, directionOf b.src = d ∧ id = b.httpId

theorem FromBuffer.concat {before : List Handed} {d : HttpDirection}
    (h : FromBuffer before d id) (b : Handed) : FromBuffer (before ++ [b]) d id := by
  obtain ⟨b', hmem, hrest⟩ := h
  exact ⟨b', mem_append_left _ hmem, hrest⟩

/-- **After any buffers**, each direction remembers the id of one of its buffers or none. -/
theorem run_remembers (before : List Handed) :
    AllRemember (FromBuffer before) (run bufferStep (fun _ => {}) before).1 := by
  induction before using List.reverseRecOn with
  | nil => exact fun d => ⟨fun _ => rfl, .inl rfl⟩
  | append_singleton before b ih =>
    have hmono : AllRemember (FromBuffer (before ++ [b])) (run bufferStep (fun _ => {}) before).1 :=
      fun d => (ih d).mono fun id hid => hid.concat b
    rw [run_append]
    exact (hmono.bufferStep ⟨b, mem_append_right _ (mem_singleton_self b), rfl, rfl⟩).1

def serverRole (isSend isResponse : Bool) : Bool :=
  (isSend && isResponse) || (!isSend && !isResponse)

/-- The frame carries the direction, the TLS flag and the connection of the buffer, in the event as
well as in the id of its post. -/
structure Attributed (b : Handed) (p : ProtocolInfo) : Prop where
  direction : p.isServer = isSend b.src
  ssl : p.data.ssl = b.httpId.isSsl
  post : p.data.id.uid = b.net.uid
  uid : p.uid = b.net.uid
  fd : p.fd = b.sockfd
  role : ∀ isResponse, serverRole p.isServer isResponse = serverRole (isSend b.src) isResponse

theorem FrameOf.attributed_iff (h : FrameOf id b.httpId p) :
    Attributed b p ↔ isSend id.src = isSend b.src ∧ id.isSsl = b.httpId.isSsl ∧
      id.uid = b.net.uid := by
  constructor
  · intro hp
    exact ⟨h.isServer.symm.trans hp.direction, h.ssl.symm.trans hp.ssl, h.post ▸ hp.post⟩
  · rintro ⟨hsend, hssl, hpost⟩
    have hserver : p.isServer = isSend b.src := h.isServer.trans hsend
    exact ⟨hserver, h.ssl.trans hssl, h.post ▸ hpost, h.uid, h.fd,
      fun isResponse => by rw [hserver]⟩

theorem isSend_of_directionOf {src src' : MetricT} (h : directionOf src = directionOf src') :
    isSend src = isSend src' := by
  rw [directionOf, directionOf] at h
  cases hs : isSend src <;> cases hs' : isSend src' <;> simp_all

/-- **Which frames are attributed to their buffer.** On a new connection, after any calls of
`doHttp`: the id in the state of the direction is zero (as wherever no HTTP/1 message is being
read), or that of an earlier buffer of that direction. Only in the second case a frame is
attributed right, if that buffer came with TLS or without as this one does; in the first it would
have to come in without TLS on a connection whose id is zero. -/
theorem frame_attribution {net : NetInfo} (hnew : net.http = fun _ => {}) {calls : List HttpCall}
    {before after : List Handed} {b : Handed}
    (hcalls : handed net calls = before ++ b :: after) {p : ProtocolInfo}
    (hp : p ∈ (bufferStep (run bufferStep net.http before).1 b).2)
    (hframe : p.ptype = .evtH2frame) :
    let st := (run bufferStep net.http before).1 (directionOf b.src)
    (Attributed b p ↔
      (st.id = {} ∧ isSend b.src = false ∧ b.httpId.isSsl = false ∧ net.uid = 0) ∨
      ∃ b' ∈ before, directionOf b'.src = directionOf b.src ∧ st.id = b'.httpId ∧
        b'.httpId.isSsl = b.httpId.isSsl) ∧
    (st.state = .httpNone → st.id = {}) := by
  rw [hnew] at hp ⊢
  have hremember := run_remembers before
  have hof : FrameOf _ b.httpId p :=
    ((show AllRemember (fun _ _ => True) _ from fun d => (hremember d).mono fun _ _ => trivial
      ).bufferStep trivial).2 p hp hframe
  have huid : ∀ b' ∈ before ++ b :: after, b'.net.uid = net.uid := fun b' hb' =>
    uid_of_mem_handed (hcalls ▸ hb')
  refine ⟨?_, (hremember (directionOf b.src)).none⟩
  rw [hof.attributed_iff, huid b (mem_append_right before mem_cons_self)]
  constructor
  · rintro ⟨hsend, hssl, hpost⟩
    rcases (hremember (directionOf b.src)).id with hzero | ⟨b', hmem, hdir, hid⟩
    · rw [hzero] at hsend hssl hpost
      exact .inl ⟨hzero, hsend.symm, hssl.symm, hpost.symm⟩
    · exact .inr ⟨b', hmem, hdir, hid, hid ▸ hssl⟩
  · rintro (⟨hzero, hsend, hssl, hpost⟩ | ⟨b', hmem, hdir, hid, hssl⟩)
    · rw [hzero, hsend, hssl, hpost]
      exact ⟨rfl, rfl, rfl⟩
    · rw [hid]
      exact ⟨isSend_of_directionOf hdir, hssl, huid b' (mem_append_left _ hmem)⟩

def newNet : NetInfo := { type := sockStream, uid := 9 }

def statusFrame : List UInt8 := [0, 0, 1, 1, 4, 0, 0, 0, 1, 0x88]

def receivedPlain : HttpCall := ⟨.idle, 4, .buf (http2Magic ++ statusFrame), 34, .netrx⟩

/-- A frame that is received without TLS has its direction and flag, and the connection 0 in its
post. -/
theorem frame_attribution_received : ∃ p ∈ (run callStep newNet [receivedPlain]).2.flatten,
      ¬ Attributed (receivedPlain.hand newNet (http2Magic ++ statusFrame)) p := by
  have hposts : (bufferStep (fun _ => {})
      (receivedPlain.hand newNet (http2Magic ++ statusFrame))).2.map
        (fun p => p.ptype) = [.evtH2frame] := by
    decide +kernel
  obtain ⟨p, hp, hframe⟩ := mem_map.1 (hposts ▸ mem_singleton_self _)
  refine ⟨p, ?_, fun hattributed => ?_⟩
  · rw [(run_calls newNet [receivedPlain]).2]
    exact mem_flatten.2 ⟨_, mem_cons_self, hp⟩
  · rcases (@frame_attribution newNet rfl [receivedPlain] [] [] _ rfl _ hp hframe).1.1 hattributed
      with ⟨-, -, -, huid⟩ | ⟨b', hb', -⟩
    · exact absurd huid (by decide)
    · cases hb'

/-- The client's preface was received over TLS, and the server sends HEADERS over TLS: the frame
is posted as one that was received without. -/
theorem frame_attribution_sent : (run callStep newNet
      [⟨.idle, 4, .buf http2Magic, 24, .tlsrx⟩, ⟨.idle, 4, .buf statusFrame, 10, .tlstx⟩]).2.map
        (fun posts => posts.map fun p => (p.ptype, p.isServer, p.data.ssl, p.data.id.uid)) =
      [[], [(.evtH2frame, false, false, 0)]] ∧
    isSend .tlstx = true ∧ (setHttpId newNet 4 .tlstx).isSsl = true := by
  decide +kernel

end AppView.Http

import AppView.Http2.Fragments

/-!
# The time of a request, and the duration of its response

A stream keeps the time of the last frame that had a `:method`.
-/

namespace AppView.Http2

open AppView.Framework List Function Option

/-! ## The duration of an HTTP/2 response -/

def Stream.assigned (p : Proto) (s : Stream) : Option ℕ :=
  if s.lastRequestAt ≠ 0 then some (millis p.startDuration s.lastRequestAt)
  else
    match p.http1Start with
    | some start => if start ≠ 0 then some (millis p.startDuration start) else none
    | none => none

theorem Stream.duration_eq (p : Proto) (s : Stream) :
    s.duration p = (s.assigned p).getD p.unassigned := by
  unfold Stream.duration Stream.assigned
  split_ifs with hlast
  · rw [getD_some]
  · cases p.http1Start with
    | none => rw [getD_none]
    | some start =>
      dsimp only
      split_ifs with hstart
      · rw [getD_some]
      · rw [getD_none]

variable {p : Proto} {s : Stream} {e : Event}

theorem Stream.assigned_isSome :
    (s.assigned p).isSome ↔ s.lastRequestAt ≠ 0 ∨ ∃ start ∈ p.http1Start, start ≠ 0 := by
  unfold Stream.assigned
  by_cases hlast : s.lastRequestAt ≠ 0
  · simp [hlast]
  · cases hstart : p.http1Start with
    | none => simp [hlast]
    | some start =>
      by_cases hzero : start = 0 <;> simp [hlast, hzero]

section LastRequest

variable {fl : Filters}

@[simp] theorem lastRequestAt_strField (o : Origin) (s : Stream) (k : String) (v : Bytes) :
    (addHttp2StrField fl o s k v).lastRequestAt = s.lastRequestAt := by
  unfold addHttp2StrField
  split_ifs <;> rfl

@[simp] theorem lastRequestAt_numField (o : Origin) (s : Stream) (k : String) (v : ℕ) :
    (addHttp2NumField fl o s k v).lastRequestAt = s.lastRequestAt := by
  unfold addHttp2NumField
  split_ifs <;> rfl

variable (h : Header) (start : ℕ)

theorem lastRequestAt_doMethod (s : Stream) (val : Bytes) :
    (doMethod fl h start s val).lastRequestAt = start := by
  unfold doMethod addFrameType
  split_ifs <;> simp [Stream.keepMethod]

theorem lastRequestAt_doStatus (s : Stream) (val : Bytes) :
    (doStatus fl h s val).lastRequestAt = s.lastRequestAt := by
  simp [doStatus, Stream.keepStatus, Stream.ofType]

theorem lastRequestAt_doContentLength (s : Stream) (val : Bytes) :
    (doContentLength fl s val).lastRequestAt = s.lastRequestAt := by
  unfold doContentLength
  split <;> simp [Stream.keepReqLen, Stream.keepRespLen]

theorem lastRequestAt_addOtherField (s : Stream) (f : Field) :
    (addOtherField fl s f).lastRequestAt = s.lastRequestAt := by
  unfold addOtherField
  dsimp only
  split_ifs <;> rfl

def isMethod (f : Field) : Bool := sameCase (octets ":method") (cStr f.name)

theorem lastRequestAt_doField (s : Stream) (f : Field) : (doField fl h start s f).lastRequestAt =
      if isMethod f then start else s.lastRequestAt := by
  unfold doField isMethod
  by_cases hmethod : sameCase (octets ":method") (cStr f.name) = true
  · rw [if_pos hmethod, if_pos hmethod, lastRequestAt_doMethod]
  · rw [if_neg hmethod, if_neg hmethod]
    split_ifs <;> simp [lastRequestAt_doStatus, lastRequestAt_doContentLength,
      lastRequestAt_addOtherField, Stream.keepHost, Stream.keepTarget, Stream.keepUserAgent]

theorem lastRequestAt_fields (s : Stream) (fs : List Field) :
    (fs.foldl (doField fl h start) s).lastRequestAt =
      if fs.any isMethod then start else s.lastRequestAt := by
  induction fs generalizing s with
  | nil => rfl
  | cons f fs ih =>
    rw [foldl_cons, ih, lastRequestAt_doField, any_cons]
    by_cases hf : isMethod f = true <;> simp [hf]

theorem socket_eq (es : List (String × Val)) (s : Stream) :
    ∃ jsonData, es.foldl (fun s e => addHttp2Field fl .connection s e.1 e.2) s =
      { s with jsonData } := by
  induction es generalizing s with
  | nil => exact ⟨s.jsonData, rfl⟩
  | cons e es ih =>
    obtain ⟨data, hdata⟩ : ∃ jsonData, addHttp2Field fl .connection s e.1 e.2 =
        { s with jsonData } := by
      rcases e with ⟨k, v | n⟩
      · rw [addHttp2Field, addHttp2StrField]
        split_ifs <;> exact ⟨_, rfl⟩
      · rw [addHttp2Field, addHttp2NumField]
        split_ifs <;> exact ⟨_, rfl⟩
    rw [foldl_cons, hdata]
    exact ih _

theorem lastRequestAt_endHeaders (p : Proto) (s : Stream) :
    (endHeaders fl p s).1.lastRequestAt = s.lastRequestAt := by
  obtain ⟨data, hdata⟩ := @socket_eq fl p.socket s
  change (p.socket.foldl _ s).lastRequestAt = _
  rw [hdata]

theorem endHeaders_unassigned (h : s.msgType = .response → (s.assigned p).isSome) (unassigned : ℕ) :
    endHeaders fl { p with unassigned } s = endHeaders fl p s := by
  obtain ⟨data, hdata⟩ := @socket_eq fl p.socket s
  unfold endHeaders
  rw [hdata]
  cases hmsg : s.msgType with
  | unset => rfl
  | request => rfl
  | response =>
    obtain ⟨d, hd⟩ := isSome_iff_exists.1 (h hmsg)
    have hdur : ∀ (q : Proto) (msgType : MsgType),
        { s with msgType, jsonData := data }.assigned q = s.assigned q := fun _ _ => rfl
    have hsame : s.assigned { p with unassigned } = s.assigned p := rfl
    dsimp only
    rw [Stream.duration_eq, Stream.duration_eq, hdur, hdur, hsame, hd]
    rfl

end LastRequest

/-! ## A connection -/

def requestTimes (times : ℕ → ℕ) (p : Proto) (fs : List Field) : ℕ → ℕ :=
  match frameHeader p.frame with
  | none => times
  | some h =>
    if h.hasBlock ∧ fs.any isMethod then Function.update times h.fStream p.startDuration
    else times

def timesAfter (huff : Bytes → Option Bytes) (fl : Filters) (ps : List Proto) : ℕ → ℕ :=
  (ps.zip (run (doHttp2Frame huff fl) none ps).2).foldl
    (fun times o => requestTimes times o.1 o.2.1) fun _ => 0

variable (huff : Bytes → Option Bytes) (fl : Filters) (ps : List Proto)

theorem timesAfter_concat (p : Proto) :
    timesAfter huff fl (ps ++ [p]) = requestTimes (timesAfter huff fl ps) p
      (doHttp2Frame huff fl (run (doHttp2Frame huff fl) none ps).1 p).2.1 := by
  rw [timesAfter, run_append, zip_append (length_run _ _).symm, foldl_append]
  rfl

def Remembers (channel : Option Channel) (times : ℕ → ℕ) : Prop :=
  ∀ k, (((channel.getD Channel.new).streams k).getD Stream.new).lastRequestAt = times k

theorem lastRequestAt_finishFrame (ch : Channel) (p : Proto) (h : Header)
    (r : Dec × List Field) (k : ℕ) :
    ((((finishFrame fl ch p h r).1.getD Channel.new).streams k).getD Stream.new).lastRequestAt =
      if k = h.fStream then
        if r.2.any isMethod then p.startDuration
        else ((ch.streams k).getD Stream.new).lastRequestAt
      else ((ch.streams k).getD Stream.new).lastRequestAt := by
  have hopened : ∀ s : Stream, s.opened.lastRequestAt = s.lastRequestAt := fun _ => rfl
  have hout : ∀ s : Stream,
      (if h.endHeaders then endHeaders fl p s else (s, none)).1.lastRequestAt =
        s.lastRequestAt := by
    intro s
    split_ifs
    · exact lastRequestAt_endHeaders p s
    · rfl
  dsimp only [finishFrame, getD_some]
  by_cases hk : k = h.fStream
  · subst hk
    rw [update_self, getD_some, hout, lastRequestAt_fields, hopened, if_pos rfl]
  · rw [update_of_ne hk, if_neg hk]

variable {channel : Option Channel}

theorem Remembers.step {times : ℕ → ℕ} (h : Remembers channel times)
    (huff : Bytes → Option Bytes) (fl : Filters) (p : Proto) :
    Remembers (doHttp2Frame huff fl channel p).1
      (requestTimes times p (doHttp2Frame huff fl channel p).2.1) := by
  intro k
  rcases doHttp2Frame_cases huff fl channel p with ⟨hnone, hframe⟩ | ⟨hd, hhead, hblock, hframe⟩
  · rw [hframe, requestTimes]
    cases hhead : frameHeader p.frame with
    | none => exact h k
    | some hd =>
      dsimp only
      rw [if_neg fun hmethod => hnone hd hhead hmethod.1]
      exact h k
  · have hfields : (doHttp2Frame huff fl channel p).2.1 =
        (decodeBlock huff (channel.getD Channel.new).decoder (headerData hd p.frame)).2 := by
      rw [hframe]
      rfl
    rw [hfields, hframe, lastRequestAt_finishFrame, h k, requestTimes, hhead]
    dsimp only
    by_cases hmethod : (decodeBlock huff (channel.getD Channel.new).decoder
          (headerData hd p.frame)).2.any isMethod = true
    · have hboth : hd.hasBlock ∧ _ := ⟨hblock, hmethod⟩
      rw [if_pos hmethod, if_pos hboth, update_apply]
    · have hnot : ¬ (hd.hasBlock ∧ _) := fun hand => hmethod hand.2
      rw [if_neg hmethod, ite_self, if_neg hnot]

/-- **A stream knows the time of the last request on it**, after any frames on a connection. -/
theorem remembers_run :
    Remembers (run (doHttp2Frame huff fl) none ps).1 (timesAfter huff fl ps) := by
  induction ps using reverseRecOn with
  | nil => exact fun _ => rfl
  | append_singleton ps p ih =>
    rw [timesAfter_concat, run_append]
    exact ih.step huff fl p

/-! ## Responses -/

def responseStream (huff : Bytes → Option Bytes) (fl : Filters) (channel : Option Channel)
    (p : Proto) : Option Stream :=
  (frameHeader p.frame).bind fun h =>
    let ch := channel.getD Channel.new
    let r := decodeBlock huff ch.decoder (headerData h p.frame)
    let s := r.2.foldl (doField fl h p.startDuration)
      ((ch.streams h.fStream).getD Stream.new).opened
    if h.hasBlock ∧ h.endHeaders ∧ s.msgType = .response then some s else none

theorem sendHttp_name {fl : Filters} {name : String} (h : sendHttp fl p name s = some e) :
    e.name = name := by
  rw [sendHttp] at h
  split_ifs at h
  obtain ⟨data, -, rfl⟩ := map_eq_some_iff.1 h
  rfl

theorem endHeaders_resp {fl : Filters} (h : (endHeaders fl p s).2 = some e)
    (hname : e.name = "http.resp") :
    s.msgType = .response := by
  obtain ⟨data, hdata⟩ := @socket_eq fl p.socket s
  unfold endHeaders at h
  rw [hdata] at h
  cases hmsg : s.msgType with
  | response => rfl
  | request =>
    rw [hmsg] at h
    exact absurd ((sendHttp_name h).symm.trans hname) (by decide)
  | unset =>
    rw [hmsg] at h
    cases h

theorem responseStream_of_event {huff : Bytes → Option Bytes} {fl : Filters}
    (h : (doHttp2Frame huff fl channel p).2.2 = some e) (hname : e.name = "http.resp") :
    (responseStream huff fl channel p).isSome := by
  rcases doHttp2Frame_cases huff fl channel p with ⟨-, hframe⟩ | ⟨hd, hhead, hblock, hframe⟩
  · rw [hframe] at h
    cases h
  · rw [hframe, finishFrame] at h
    split_ifs at h with hend
    rw [responseStream, hhead, bind_some, if_pos ⟨hblock, hend, endHeaders_resp h hname⟩]
    rfl

def DurationKnown (times : ℕ → ℕ) (p : Proto) : Prop :=
  (∃ h ∈ frameHeader p.frame, times h.fStream ≠ 0) ∨ ∃ start ∈ p.http1Start, start ≠ 0

/-- **The duration of a response has been assigned** exactly if the last request on its stream, or
an HTTP/1 request on its connection, has a time. -/
theorem assigned_iff (p : Proto)
    (hs : responseStream huff fl (run (doHttp2Frame huff fl) none ps).1 p = some s) :
    (s.assigned p).isSome ↔ DurationKnown (timesAfter huff fl (ps ++ [p])) p := by
  obtain ⟨h, hhead, hs⟩ := bind_eq_some_iff.1 hs
  dsimp only at hs
  split_ifs at hs with hresp
  cases hs
  have hlast := remembers_run huff fl (ps ++ [p]) h.fStream
  rw [run_append] at hlast
  change ((((doHttp2Frame huff fl _ p).1.getD Channel.new).streams _).getD _).lastRequestAt = _
    at hlast
  rcases doHttp2Frame_cases huff fl (run (doHttp2Frame huff fl) none ps).1 p with
    ⟨hnone, -⟩ | ⟨hd, hhead', -, hframe⟩
  · exact absurd hresp.1 (hnone h hhead)
  · obtain rfl : h = hd := some.inj (hhead.symm.trans hhead')
    rw [hframe, lastRequestAt_finishFrame, if_pos rfl] at hlast
    rw [Stream.assigned_isSome, DurationKnown, lastRequestAt_fields]
    refine or_congr_left ?_
    rw [hhead]
    simp only [mem_def, some.injEq, exists_eq_left', ← hlast]
    rfl

theorem doHttp2Frame_unassigned (channel : Option Channel) (p : Proto)
    (hs : ∀ s, responseStream huff fl channel p = some s → (s.assigned p).isSome) (unassigned : ℕ) :
    doHttp2Frame huff fl channel { p with unassigned } = doHttp2Frame huff fl channel p := by
  unfold doHttp2Frame
  cases hhead : frameHeader p.frame with
  | none => rfl
  | some h =>
    dsimp only
    by_cases hblock : h.hasBlock
    · rw [if_pos hblock, if_pos hblock]
      by_cases hend : h.endHeaders
      · have hassigned : _ → _ := fun hmsg => hs _ (by
          rw [responseStream, hhead]
          exact if_pos ⟨hblock, hend, hmsg⟩)
        rw [if_pos hend, if_pos hend, endHeaders_unassigned hassigned]
      · rw [if_neg hend, if_neg hend]
    · rw [if_neg hblock, if_neg hblock]

end AppView.Http2

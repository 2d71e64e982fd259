import AppView.Framework.Runs
import AppView.Http.Report

/-!
# Pairing of HTTP/1 requests and responses

The table of pending requests is a map from ids to slots, whatever collides in it.
-/

namespace AppView.Http

open AppView.Framework List Function Option

variable {env : ReportEnv}

def Input.uid : Input → UInt64
  | .header p => p.data.id.uid
  | .close uid => uid

/-! ## One slot -/

def slotStep (env : ReportEnv) (slot : Option HttpMap) : Input → Option HttpMap × List HttpEvent
  | .header p =>
    if p.ptype = .evtHreq then
      match slot with
      | some map => (some map, [])
      | none =>
        (some ⟨p.data.startDuration, p.data.hdr⟩,
          ((firstLine p.data.hdr).map fun line => httpReqEvent env line p).toList)
    else if p.ptype = .evtHres then
      match slot with
      | none => (none, [httpRespEvent env none p])
      | some map =>
        match firstLine map.req with
        | none => (some map, [])
        | some line => (none, [httpRespEvent env (some (map, line)) p])
    else (slot, [])
  | .close _ => (none, [])

variable {uid : UInt64} {slot : Option HttpMap} {i : Input}

theorem update_slot {m : HttpMatch} (h : httpReqGet m uid = slot) :
    httpReqGet m = update (httpReqGet m) uid slot := by
  rw [← h, update_eq_self]

/-- **The table is a map of slots**: each step is one of the slot of its id, and leaves the
others. -/
theorem report_slot (m : HttpMatch) (i : Input) :
    (report env m i).2 = (slotStep env (httpReqGet m i.uid) i).2 ∧ httpReqGet (report env m i).1 =
        update (httpReqGet m) i.uid (slotStep env (httpReqGet m i.uid) i).1 := by
  cases i with
  | close uid => exact ⟨rfl, HashTable.get_delete hashOfKey m uid⟩
  | header p =>
    simp only [report, doHttp1Header, slotStep, Input.uid]
    split_ifs with hreq hres
    · unfold doRequest
      cases hget : httpReqGet m p.data.id.uid with
      | some map => exact ⟨rfl, update_slot hget⟩
      | none =>
        have hsaved : (httpReqSave m p.data.id.uid ⟨p.data.startDuration, p.data.hdr⟩).2 = true ∧
            httpReqGet (httpReqSave m p.data.id.uid ⟨p.data.startDuration, p.data.hdr⟩).1 =
              update (httpReqGet m) p.data.id.uid
                (some ⟨p.data.startDuration, p.data.hdr⟩) := HashTable.get_save hashOfKey hget
        simp only [hsaved.1, if_true]
        exact ⟨trivial, hsaved.2⟩
    · unfold doResponse
      cases hget : httpReqGet m p.data.id.uid with
      | none => exact ⟨rfl, update_slot hget⟩
      | some map =>
        cases hline : firstLine map.req with
        | none =>
          simp only [hline]
          exact ⟨trivial, update_slot hget⟩
        | some line =>
          simp only [hline]
          exact ⟨trivial, HashTable.get_delete hashOfKey m _⟩
    · exact ⟨rfl, update_slot rfl⟩

def inputsOf (uid : UInt64) (is : List Input) : List Input := is.filter (·.uid = uid)

theorem inputsOf_cons (uid : UInt64) (i : Input) (is : List Input) :
    inputsOf uid (i :: is) = if i.uid = uid then i :: inputsOf uid is else inputsOf uid is := by
  simp [inputsOf, filter_cons]

theorem run_slot (m : HttpMatch) (is : List Input) (uid : UInt64) :
    httpReqGet (run (report env) m is).1 uid =
      (run (slotStep env) (httpReqGet m uid) (inputsOf uid is)).1 := by
  induction is generalizing m with
  | nil => rfl
  | cons i is ih =>
    rw [run_cons, ih, (report_slot m i).2, inputsOf_cons]
    by_cases hi : i.uid = uid
    · subst hi
      rw [update_self, if_pos rfl, run_cons]
    · rw [update_of_ne (Ne.symm hi), if_neg hi]

/-! ## The history of an id -/

def Input.ends (uid : UInt64) : Input → Bool
  | .header p => p.data.id.uid = uid && p.ptype = .evtHres
  | .close id => id = uid

def Input.requestOf (uid : UInt64) : Input → Option ProtocolInfo
  | .header p => if p.data.id.uid = uid ∧ p.ptype = .evtHreq then some p else none
  | .close _ => none

def firstSince (uid : UInt64) (history : List Input) : Option ProtocolInfo :=
  (history.reverse.takeWhile (!·.ends uid)).reverse.findSome? (·.requestOf uid)

theorem firstSince_concat (uid : UInt64) (history : List Input) (i : Input) :
    firstSince uid (history ++ [i]) =
      if i.ends uid then none else (firstSince uid history).or (i.requestOf uid) := by
  unfold firstSince
  rw [reverse_append, reverse_singleton, singleton_append, takeWhile_cons]
  cases hends : i.ends uid with
  | true => simp
  | false =>
    simp only [Bool.not_false, if_true, reverse_cons, findSome?_append,
      Bool.false_eq_true, if_false]
    cases hreq : i.requestOf uid <;> simp [findSome?, hreq]

theorem ends_of_ne (h : i.uid ≠ uid) : i.ends uid = false := by
  cases i with
  | header p =>
    have hp : ¬ p.data.id.uid = uid := h
    simp [Input.ends, hp]
  | close id =>
    have hid : ¬ id = uid := h
    simp [Input.ends, hid]

theorem requestOf_of_ne (h : i.uid ≠ uid) : i.requestOf uid = none := by
  cases i with
  | header p =>
    have hp : ¬ p.data.id.uid = uid := h
    simp [Input.requestOf, hp]
  | close id => rfl

/-! ## What a slot holds -/

def saved (q : ProtocolInfo) : HttpMap := ⟨q.data.startDuration, q.data.hdr⟩

def Tracks (slot : Option HttpMap) (first : Option ProtocolInfo) : Prop :=
  slot = first.map saved ∨ ∃ map, slot = some map ∧ firstLine map.req = none

variable {first : Option ProtocolInfo} {e : HttpEvent}

theorem tracks_step (i : Input) (h : Tracks slot first) : Tracks (slotStep env slot i).1
      (if i.ends i.uid then none else first.or (i.requestOf i.uid)) := by
  cases i with
  | close uid => exact .inl (by simp [slotStep, Input.ends, Input.uid])
  | header p =>
    by_cases hreq : p.ptype = .evtHreq
    · have hends : (Input.header p).ends p.data.id.uid = false := by simp [Input.ends, hreq]
      have hof : (Input.header p).requestOf p.data.id.uid = some p := by
        simp [Input.requestOf, hreq]
      simp only [Input.uid, hends, hof, slotStep, hreq, if_true, Bool.false_eq_true, if_false]
      rcases h with rfl | ⟨map, rfl, hline⟩
      · cases first <;> exact .inl rfl
      · exact .inr ⟨map, rfl, hline⟩
    · by_cases hres : p.ptype = .evtHres
      · have hends : (Input.header p).ends p.data.id.uid = true := by simp [Input.ends, hres]
        simp only [Input.uid, hends, if_true, slotStep, hres]
        cases slot with
        | none => exact .inl rfl
        | some map =>
          cases hline : firstLine map.req with
          | none =>
            simp only [hline]
            exact .inr ⟨map, rfl, hline⟩
          | some line =>
            simp only [hline]
            exact .inl rfl
      · have hends : (Input.header p).ends p.data.id.uid = false := by simp [Input.ends, hres]
        have hof : (Input.header p).requestOf p.data.id.uid = none := by
          simp [Input.requestOf, hreq]
        simp only [Input.uid, hends, hof, slotStep, hreq, hres, if_false, Bool.false_eq_true,
          or_none]
        exact h

def pendingAfter (env : ReportEnv) (history : List Input) : HttpMatch :=
  (run (report env) HashTable.empty history).1

theorem tracks_history (env : ReportEnv) (history : List Input) (uid : UInt64) :
    Tracks (httpReqGet (pendingAfter env history) uid) (firstSince uid history) := by
  induction history using reverseRecOn with
  | nil => exact .inl rfl
  | append_singleton history i ih =>
    have hrun : pendingAfter env (history ++ [i]) =
        (report env (pendingAfter env history) i).1 := by
      simp [pendingAfter, run_append, run_cons]
    rw [hrun, (report_slot _ i).2, firstSince_concat]
    by_cases hi : i.uid = uid
    · subst hi
      rw [update_self]
      exact tracks_step i ih
    · rw [update_of_ne (Ne.symm hi), ends_of_ne hi, requestOf_of_ne hi]
      simpa using ih

/-! ## Events -/

def Carries (env : ReportEnv) (first : Option ProtocolInfo) (p : ProtocolInfo)
    (e : HttpEvent) : Prop :=
  match first with
  | none =>
    e.fields = fieldArray (statusFields env none p ++ httpFields env false p.data.hdr ++
      httpFieldsInternal env p)
  | some q =>
    ∃ line, firstLine q.data.hdr = some line ∧ requestTarget line <+: e.fields ∧
      e.fields = fieldArray (requestTarget line ++ [scheme p] ++
        statusFields env (some q.data.startDuration) p ++ httpFields env true q.data.hdr ++
        httpFields env false p.data.hdr ++ httpFieldsInternal env p)

theorem length_requestTarget (line : List UInt8) : (requestTarget line).length ≤ 2 := by
  unfold requestTarget
  cases (words [32] line)[0]? <;> cases (words [32] line)[1]? <;> simp

theorem requestTarget_carried (line : List UInt8) (fs : List EventField) :
    requestTarget line <+: fieldArray (requestTarget line ++ fs) := by
  have hlen := length_requestTarget line
  unfold fieldArray httpMaxFields
  rw [take_append, take_of_length_le (by omega)]
  exact prefix_append _ _

theorem carries_respEvent (h : Tracks slot first) {p : ProtocolInfo}
    (hres : p.ptype = .evtHres) (he : e ∈ (slotStep env slot (.header p)).2) :
    e.uid = p.data.id.uid ∧ Carries env first p e := by
  simp only [slotStep, hres, if_true] at he
  rcases h with rfl | ⟨map, rfl, hline⟩
  · cases first with
    | none =>
      obtain rfl : e = _ := by simpa using he
      exact ⟨rfl, by simp [Carries, httpRespEvent]⟩
    | some q =>
      cases hline : firstLine (saved q).req with
      | none => simp [hline] at he
      | some line =>
        obtain rfl : e = _ := by simpa [hline] using he
        refine ⟨rfl, line, hline, ?_, ?_⟩
        · simp only [httpRespEvent, elim_some, append_assoc]
          exact requestTarget_carried line _
        · rfl
  · simp [hline] at he

theorem name_of_not_response (he : e ∈ (slotStep env slot i).2) (hname : e.name = "http.resp") :
    ∃ p, i = .header p ∧ p.ptype = .evtHres := by
  cases i with
  | close uid => cases he
  | header p =>
    refine ⟨p, rfl, ?_⟩
    by_contra hres
    by_cases hreq : p.ptype = .evtHreq
    · simp only [slotStep, hreq, if_true] at he
      cases slot with
      | some map => cases he
      | none =>
        obtain ⟨line, -, rfl⟩ : ∃ line, firstLine p.data.hdr = some line ∧
            httpReqEvent env line p = e := by simpa using he
        exact absurd hname (by simp [httpReqEvent])
    · simp [slotStep, hreq, hres] at he

/-- **Pairing.** After any history: an `http.resp` event carries what it has of a request,
and its time, from the first request of its id since the last response or close of that id;
a request while one is pending gives no event and changes nothing; what is reported for an
id is decided by the inputs of that id. -/
theorem http1_pairing (env : ReportEnv) (history : List Input) (i : Input) :
    (∀ e ∈ (report env (pendingAfter env history) i).2, e.name = "http.resp" →
      ∃ p, i = .header p ∧ p.ptype = .evtHres ∧ e.uid = i.uid ∧
        Carries env (firstSince i.uid history) p e) ∧
    (∀ p, i = .header p → p.ptype = .evtHreq → (firstSince i.uid history).isSome →
      report env (pendingAfter env history) i = (pendingAfter env history, [])) ∧
    ∀ history', inputsOf i.uid history' = inputsOf i.uid history →
      (report env (pendingAfter env history') i).2 =
        (report env (pendingAfter env history) i).2 := by
  have htracks := tracks_history env history i.uid
  refine ⟨?_, ?_, ?_⟩
  · intro e he hname
    rw [(report_slot _ i).1] at he
    obtain ⟨p, rfl, hres⟩ := name_of_not_response he hname
    obtain ⟨huid, hcarries⟩ := carries_respEvent htracks hres he
    exact ⟨p, rfl, hres, huid, hcarries⟩
  · rintro p rfl hreq hfirst
    obtain ⟨q, hq⟩ := isSome_iff_exists.1 hfirst
    have hget : ∃ map, httpReqGet (pendingAfter env history) p.data.id.uid = some map := by
      rcases htracks with h | ⟨map, h, -⟩
      · rw [hq] at h
        exact ⟨saved q, h⟩
      · exact ⟨map, h⟩
    obtain ⟨map, hmap⟩ := hget
    simp [report, doHttp1Header, hreq, doRequest, hmap]
  · intro history' hsame
    rw [(report_slot _ i).1, (report_slot _ i).1]
    simp [pendingAfter, run_slot, hsame]

/-! ## Headers of one connection -/

def quietEnv : ReportEnv :=
  { headerRes := [], pid := 7, hostname := bytes "h", procname := bytes "p",
    netFields := fun _ => [], freq := 1000, gptimerAvail := true, unset := [] }

def headerPost (ptype : MetricT) (uid startDuration : UInt64) (lines : List (List UInt8)) :
    ProtocolInfo :=
  let hdr := (lines.map (· ++ crlf)).flatten ++ [0]
  { ptype, isServer := false, len := hdr.length, fd := 3, uid,
    data := { ssl := false, startDuration, id := { uid, sockfd := 3 }, hdr },
    sockType := -1, localConn := {}, remoteConn := {} }

def getRequest : ProtocolInfo :=
  headerPost .evtHreq 5 1000 [bytes "GET / HTTP/1.1", bytes "Host: a"]

def okResponse : ProtocolInfo := headerPost .evtHres 5 3000000 [bytes "HTTP/1.1 200 OK"]

def otherRequest : ProtocolInfo := headerPost .evtHreq 262 0 [bytes "PUT /x HTTP/1.1"]

/-- A request is pending on the connection, and one of another id in the same list. -/
theorem http1_pairing_get : ∃ e, (report quietEnv (pendingAfter quietEnv
        [.header otherRequest, .header getRequest]) (.header okResponse)).2 = [e] ∧
      Carries quietEnv (some getRequest) okResponse e := by
  have h := http1_pairing quietEnv [.header otherRequest, .header getRequest] (.header okResponse)
  have hname : ∀ e ∈ (report quietEnv (pendingAfter quietEnv
      [.header otherRequest, .header getRequest]) (.header okResponse)).2,
      e.name = "http.resp" := by decide +kernel
  have hone : (report quietEnv (pendingAfter quietEnv
      [.header otherRequest, .header getRequest]) (.header okResponse)).2.length = 1 := by
    decide +kernel
  obtain ⟨e, he⟩ := length_eq_one_iff.1 hone
  obtain ⟨p, hp, -, -, hcarries⟩ := h.1 e (by rw [he]; exact mem_singleton_self e)
    (hname e (by rw [he]; exact mem_singleton_self e))
  cases hp
  exact ⟨e, he, hcarries⟩

def manyRequest : ProtocolInfo :=
  headerPost .evtHreq 5 1000
    (bytes "GET / HTTP/1.1" :: List.replicate 22 (bytes "Host: a") ++ [bytes "Host: z"])

/-- The last line of the request is a field of the request that the response does not
carry: the array is full. -/
theorem http1_pairing_full :
    hAttrib "http_host" (bytes "z") 1 ∈ httpFields quietEnv true manyRequest.data.hdr ∧
    (report quietEnv (pendingAfter quietEnv [.header manyRequest])
      (.header okResponse)).2.map (fun e => (e.name,
        decide (hAttrib "http_host" (bytes "z") 1 ∈ e.fields))) = [("http.resp", false)] := by
  decide +kernel

end AppView.Http

import AppView.Ipc.Response

/-!
# The request: from the command line tool to the library

`sendIpcRequest` cuts a message into frames, each with its metadata, a NUL, the data and one
more NUL; the last frame is marked by a textual replacement of the request type.
**`request_round_trip`**: the handler returns exactly the message with one NUL, and takes no
frame more. **`parse_status_listed`**: the statuses the handler ends with are those that
`translateParseStatusToResp` lists, except where a frame fails in its `remain` member: that
status is not listed, and the switch falls into its unreachable branch.
-/

namespace AppView.Ipc

open AppView.Framework List Option

/-! ## The sender -/

def metaReqJson : ℤ := 0

def metaReqJsonPartial : ℤ := 1

def reqFields (req uniq remain : ℤ) : Fields :=
  [("req".toList, req), ("uniq".toList, uniq), ("remain".toList, remain)]

def frameMeta (G : GoJson) (mqUniqId : ℤ) (remainBytes : ℕ) : Bytes :=
  G.marshal (reqFields metaReqJsonPartial mqUniqId remainBytes) ++ [0]

/-- A frame with as much of the message as fits behind its metadata. -/
def prepareFrame (G : GoJson) (mqUniqId : ℤ) (cap : ℕ) (appviewData : Bytes) :
    Except IpcError (Bytes × ℕ) :=
  let frame := frameMeta G mqUniqId appviewData.length
  let maxPossibleDataLen : ℤ := (cap : ℤ) - frame.length - 1
  if maxPossibleDataLen < 0 then .error .request
  else
    let appviewFrameDataSize :=
      if (appviewData.length : ℤ) < maxPossibleDataLen then appviewData.length
      else maxPossibleDataLen.toNat
    .ok (frame ++ appviewData.take appviewFrameDataSize ++ [0], appviewFrameDataSize)

def replaceFirst (bs old new : Bytes) : Bytes :=
  match strstr bs old with
  | none => bs
  | some i => bs.take i ++ new ++ bs.drop (i + old.length)

def sendIpcRequest (G : GoJson) (mqUniqId : ℤ) (cap : ℕ) (send : ℕ → Option IpcError) :
    ℕ → ℕ → Bytes → Option (List Bytes × Except IpcError Unit)
  | _, _, [] => some ([], .ok ())
  | 0, _, _ :: _ => none
  | fuel + 1, n, b :: bs =>
    match prepareFrame G mqUniqId cap (b :: bs) with
    | .error e => some ([], .error e)
    | .ok (frame, dataSize) =>
      let rest := (b :: bs).drop dataSize
      let frame := if rest = [] then
          replaceFirst frame (ascii "req\":1".toList) (ascii "req\":0".toList)
        else frame
      match send n with
      | some e => some ([], .error e)
      | none =>
        (sendIpcRequest G mqUniqId cap send fuel (n + 1) rest).map fun r =>
          (frame :: r.1, r.2)

/-! ## The handler -/

inductive ParseStatus where
  | genericError
  | allocationError
  | receiveError
  | receiveTimeoutError
  | missingAppviewDataError
  | jsonError
  | reqError
  | uniqError
  | remainError
  | appviewReqError
  | appviewSizeError
  | okPartial
  | ok
  deriving DecidableEq, Repr

inductive ReceiveAnswer where
  | message (bs : Bytes)
  | again
  | other
  deriving DecidableEq, Repr

inductive ReceiveResult where
  | retryLimit
  | other
  | ok (bs : Bytes)
  deriving DecidableEq, Repr

def receiveTries (answer : ℕ → ReceiveAnswer) : ℕ → ℕ → ReceiveResult
  | 0, _ => .retryLimit
  | retries + 1, i =>
    match answer i with
    | .message bs => .ok bs
    | .again => receiveTries answer retries (i + 1)
    | .other => .other

def ipcReceiveFrameWithRetry (answer : ℕ → ReceiveAnswer) : ReceiveResult :=
  receiveTries answer 500 0

variable {Item : Type}

def numberItem (J : CJson Item) (item : Item) (name : List Char) : Option Item :=
  (J.getObjectItemCaseSensitive item name).filter J.isNumber

def sizeT (z : ℤ) : ℕ := (z % 2 ^ 64).toNat

def sizeMax : ℕ := 2 ^ 64 - 1

structure Parsed where
  parseStatus : ParseStatus
  uniqVal : ℤ
  appviewMsg : Option Bytes
  deriving DecidableEq, Repr

def ipcParseSingleFrame (J : CJson Item) (frameAlloc : Bool) (msgBuf : Bytes) (uniqVal : ℤ)
    (remainLen : ℕ) : Parsed :=
  if (0 : UInt8) ∉ msgBuf then ⟨.jsonError, uniqVal, none⟩
  else
    match (J.parse (cString msgBuf)).filter J.isObject with
    | none => ⟨.jsonError, uniqVal, none⟩
    | some msgJson =>
      match numberItem J msgJson "req".toList with
      | none => ⟨.reqError, uniqVal, none⟩
      | some reqKey =>
        if J.valueint reqKey ≠ metaReqJson ∧ J.valueint reqKey ≠ metaReqJsonPartial then
          ⟨.reqError, uniqVal, none⟩
        else
          match numberItem J msgJson "uniq".toList with
          | none => ⟨.uniqError, uniqVal, none⟩
          | some uniqKey =>
            match numberItem J msgJson "remain".toList with
            | none => ⟨.remainError, J.valueint uniqKey, none⟩
            | some remainKey =>
              if remainLen ≤ sizeT (J.valueint remainKey) then
                ⟨.remainError, J.valueint uniqKey, none⟩
              else
                let dataOffset := (J.printUnformatted msgJson).length + 1
                if msgBuf.length ≤ dataOffset then
                  ⟨.missingAppviewDataError, J.valueint uniqKey, none⟩
                else if frameAlloc = false then ⟨.allocationError, J.valueint uniqKey, none⟩
                else
                  ⟨if J.valueint reqKey = metaReqJsonPartial then .okPartial else .ok,
                    J.valueint uniqKey, some (msgBuf.drop dataOffset)⟩

def inputMsgAllocLimit : ℕ := 1024 * 1024

/-- No result above the limit of a message. -/
def appviewMsgAppend (msgAlloc : Bool) (msg frame : Bytes) : Except ParseStatus Bytes :=
  if inputMsgAllocLimit < msg.length - 1 + frame.length then .error .appviewSizeError
  else if msgAlloc = false then .error .allocationError
  else .ok (msg.take (msg.length - 1) ++ frame)

def joinFrame (msgAlloc : Bool) (msgRes : Option Bytes) (frame : Bytes) :
    Except ParseStatus Bytes :=
  match msgRes with
  | none => if msgAlloc = false then .error .allocationError else .ok frame
  | some msg => appviewMsgAppend msgAlloc msg frame

structure Round where
  mqReceive : ℕ → ReceiveAnswer
  frameAlloc : Bool
  msgAlloc : Bool

structure Handled where
  parseStatus : ParseStatus
  uniqueReq : ℤ
  msgRes : Option Bytes
  /-- What is left on the queue. -/
  left : List Round

/-- Frame after frame until one is the last; `remain` of each replaces what was known before. -/
def handleFrames (J : CJson Item) : Option Bytes → ℤ → List Round → Handled
  | _, uniqueReq, [] => ⟨.receiveTimeoutError, uniqueReq, none, []⟩
  | msgRes, uniqueReq, r :: rounds =>
    match ipcReceiveFrameWithRetry r.mqReceive with
    | .retryLimit => ⟨.receiveTimeoutError, uniqueReq, none, rounds⟩
    | .other => ⟨.receiveError, uniqueReq, none, rounds⟩
    | .ok mqMsgBuf =>
      -- `remainLen` is set anew for every frame
      let p := ipcParseSingleFrame J r.frameAlloc mqMsgBuf uniqueReq sizeMax
      match p.appviewMsg with
      | none => ⟨p.parseStatus, p.uniqVal, none, rounds⟩
      | some frameRes =>
        match joinFrame r.msgAlloc msgRes frameRes with
        | .error status => ⟨status, p.uniqVal, none, rounds⟩
        | .ok msg =>
          if p.parseStatus ≠ .okPartial then
            ⟨p.parseStatus, p.uniqVal, some msg, rounds⟩
          else handleFrames J (some msg) p.uniqVal rounds

def ipcRequestHandler (J : CJson Item) (bufAlloc : Bool) (uniqueReq : ℤ)
    (rounds : List Round) : Handled :=
  if bufAlloc = false then ⟨.allocationError, uniqueReq, none, rounds⟩
  else handleFrames J none uniqueReq rounds

/-! ## What becomes of the status -/

def badRequest : ℤ := 400

def respServerError : ℤ := 500

def translateParseStatusToResp : ParseStatus → Option ℤ
  | .ok => some respOk
  | .allocationError | .receiveError | .receiveTimeoutError => some respServerError
  | .jsonError | .reqError | .uniqError | .appviewReqError | .missingAppviewDataError
  | .appviewSizeError => some badRequest
  | _ => none

def ipcCommunication (J : CJson Item) (bufAlloc : Bool) (rounds : List Round) :
    Option ParseStatus :=
  let h := ipcRequestHandler J bufAlloc (-1) rounds
  if h.parseStatus = .ok then none else some h.parseStatus

/-! ## The sender cuts -/

def reqType (last : Bool) : ℤ := if last then metaReqJson else metaReqJsonPartial

def reqFrame (uniq : ℤ) (p : Piece UInt8) : Bytes :=
  ascii (compact (reqFields (reqType p.last) uniq p.remain)) ++ 0 :: (p.data ++ [0])

theorem small_reqFields {uniq : ℤ} (last : Bool) {remain : ℕ} (hu : IsInt uniq)
    (hr : remain < 2 ^ 31) : Small (reqFields (reqType last) uniq remain) := by
  simp only [Small, reqFields, mem_cons, not_mem_nil, or_false]
  rintro f (rfl | rfl | rfl)
  · exact ⟨show PlainName "req".toList by decide, by cases last <;> decide⟩
  · exact ⟨show PlainName "uniq".toList by decide, hu⟩
  · exact ⟨show PlainName "remain".toList by decide, isInt_natCast hr⟩

theorem compact_reqFields (req uniq remain : ℤ) :
    compact (reqFields req uniq remain) = "\x7b\"req\":".toList ++ (decimal req ++
      furtherMembers [("uniq".toList, uniq), ("remain".toList, remain)]) := by
  simp [compact, reqFields, member]

theorem length_reqFields_mono (req uniq : ℤ) {m n : ℕ} (h : m ≤ n) :
    (ascii (compact (reqFields req uniq m))).length ≤
      (ascii (compact (reqFields req uniq n))).length := by
  have hlen := length_toDigits_mono h
  simp only [length_ascii, compact, reqFields, furtherMembers, member, decimal_natCast,
    length_cons, length_append]
  omega

theorem replaceFirst_reqFields (uniq remain : ℤ) (bs : Bytes) :
    replaceFirst (ascii (compact (reqFields metaReqJsonPartial uniq remain)) ++ bs)
        (ascii "req\":1".toList) (ascii "req\":0".toList) =
      ascii (compact (reqFields metaReqJson uniq remain)) ++ bs := by
  rw [compact_reqFields, compact_reqFields]
  generalize furtherMembers [("uniq".toList, uniq), ("remain".toList, remain)] = tail
  have hpart : decimal metaReqJsonPartial = ['1'] := by decide
  have hwhole : decimal metaReqJson = ['0'] := by decide
  have hfind : strstr (ascii ("\x7b\"req\":".toList ++ (['1'] ++ tail)) ++ bs)
      (ascii "req\":1".toList) = some 2 := by
    rw [strstr, find?_range_eq_some]
    refine ⟨?_, by simp [ascii], ?_⟩
    · rw [decide_eq_true_eq]
      exact ⟨ascii tail ++ bs, by simp [ascii]⟩
    · intro j hj
      obtain rfl | rfl : j = 0 ∨ j = 1 := by omega
      · simp [OccursAt, ascii]
      · simp [OccursAt, ascii]
  rw [hpart, hwhole, replaceFirst, hfind]
  simp [ascii]

section Sender

variable {G : GoJson} {uniq : ℤ} {cap : ℕ}

theorem prepareFrame_ok {data : Bytes} (hdata : data ≠ [])
    (hcap : (frameMeta G uniq data.length).length + 2 ≤ cap) :
    ∃ k, 0 < k ∧ prepareFrame G uniq cap data =
      .ok (frameMeta G uniq data.length ++ data.take k ++ [0], k) := by
  have hpos := length_pos_iff.2 hdata
  refine ⟨_, ?_, if_neg (by omega)⟩
  split <;> omega

/-- **The sender cuts the message**, and comes to its end: each round sends at least one
byte, so as many rounds as there are bytes are enough. It stops where a send fails. -/
theorem sendIpcRequest_cut (send : ℕ → Option IpcError) (data : Bytes) (hdata : data ≠ [])
    (hmeta : ∀ n ≤ data.length,
      frameMeta G uniq n = ascii (compact (reqFields metaReqJsonPartial uniq n)) ++ [0])
    (hcap : (frameMeta G uniq data.length).length + 2 ≤ cap) :
    ∃ ps, Cut data ps ∧ ∀ n, ∃ sent result, sent <+: ps ∧ (result = .ok () → sent = ps) ∧
      ((∀ n, send n = none) → result = .ok ()) ∧
      ∀ fuel, data.length ≤ fuel →
        sendIpcRequest G uniq cap send fuel n data = some (sent.map (reqFrame uniq), result) := by
  induction hlength : data.length using Nat.strong_induction_on generalizing data with
  | _ len ih =>
    subst hlength
    obtain ⟨k, hk, hprepare⟩ := prepareFrame_ok hdata hcap
    rw [hmeta _ le_rfl] at hprepare
    obtain ⟨b, bs, rfl⟩ := exists_cons_of_ne_nil hdata
    have hfails : ∀ n e, send n = some e → ∀ fuel, (b :: bs).length ≤ fuel →
        sendIpcRequest G uniq cap send fuel n (b :: bs) = some ([], .error e) := by
      intro n e hsend fuel hfuel
      obtain ⟨fuel, rfl⟩ := Nat.exists_eq_add_one_of_ne_zero (Nat.ne_zero_of_lt hfuel)
      simp [sendIpcRequest, hprepare, hsend]
    by_cases hrest : (b :: bs).drop k = []
    · have htake : (b :: bs).take k = b :: bs :=
        take_of_length_le (drop_eq_nil_iff.1 hrest)
      refine ⟨_, .last hdata, fun n => ?_⟩
      rcases hsend : send n with _ | e
      · refine ⟨_, .ok (), prefix_rfl, fun _ => rfl, fun _ => rfl, fun fuel hfuel => ?_⟩
        obtain ⟨fuel, rfl⟩ := Nat.exists_eq_add_one_of_ne_zero (Nat.ne_zero_of_lt hfuel)
        simp only [sendIpcRequest, hprepare, hsend]
        rw [if_pos hrest, htake, hrest]
        simp only [append_assoc, replaceFirst_reqFields, sendIpcRequest]
        rfl
      · exact ⟨[], .error e, nil_prefix, fun h => (by cases h),
          fun hall => (by simp [hall] at hsend), hfails n e hsend⟩
    · have hshorter : ((b :: bs).drop k).length < (b :: bs).length := by
        rw [length_drop, length_cons]
        omega
      have hmono := length_reqFields_mono metaReqJsonPartial uniq hshorter.le
      have hroom : (frameMeta G uniq ((b :: bs).drop k).length).length + 2 ≤ cap := by
        rw [hmeta _ le_rfl] at hcap
        rw [hmeta _ hshorter.le]
        simp only [length_append] at hcap ⊢
        omega
      obtain ⟨ps, hcut, hps⟩ := ih _ hshorter ((b :: bs).drop k) hrest
        (fun n hn => hmeta n (hn.trans hshorter.le)) hroom rfl
      refine ⟨_, hcut.take hk hdata, fun n => ?_⟩
      rcases hsend : send n with _ | e
      · obtain ⟨sent, result, hsent, hok, hall, hfuel⟩ := hps (n + 1)
        refine ⟨_ :: sent, result, (prefix_cons_inj _).2 hsent, fun h => ?_, hall,
          fun fuel hle => ?_⟩
        · rw [hok h]
        · obtain ⟨fuel, rfl⟩ := Nat.exists_eq_add_one_of_ne_zero (Nat.ne_zero_of_lt hle)
          simp only [sendIpcRequest, hprepare, hsend]
          rw [if_neg hrest, hfuel fuel (by omega), map_some]
          simp [reqFrame, reqType]
      · exact ⟨[], .error e, nil_prefix, fun h => (by cases h),
          fun hall => (by simp [hall] at hsend), hfails n e hsend⟩

end Sender

/-! ## The handler joins -/

structure Round.Delivers (r : Round) (frame : Bytes) : Prop where
  received : ipcReceiveFrameWithRetry r.mqReceive = .ok frame
  frameAlloc : r.frameAlloc = true
  msgAlloc : r.msgAlloc = true

section Handler

variable {J : CJson Item} {uniq : ℤ}

theorem numberItem_of_holds {item : Item} {fs : Fields} (h : J.Holds item fs)
    (name : List Char) {z : ℤ} (hz : fs.lookup name = some z) :
    ∃ n, numberItem J item name = some n ∧ J.valueint n = z := by
  obtain ⟨n, hget, hnumber, hval⟩ := h.get name z hz
  exact ⟨n, by simp [numberItem, hget, hnumber], hval⟩

theorem sizeT_natCast {n : ℕ} (hn : n < 2 ^ 31) : sizeT n = n := by
  rw [sizeT]
  omega

variable {p : Piece UInt8} {msgRes : Option Bytes} {data : Bytes}

theorem ipcParseSingleFrame_frame (hJ : J.Compact) (hu : IsInt uniq) (hp : p.remain < 2 ^ 31)
    (uniqVal : ℤ) :
    ipcParseSingleFrame J true (reqFrame uniq p) uniqVal sizeMax =
      ⟨if p.last then .ok else .okPartial, uniq, some (p.data ++ [0])⟩ := by
  have hsmall := small_reqFields p.last hu hp
  obtain ⟨item, hparse, hholds, hprint⟩ := hJ.parse _ hsmall
  obtain ⟨reqKey, hreq, hreqval⟩ := numberItem_of_holds hholds "req".toList rfl
  obtain ⟨uniqKey, huniq, huniqval⟩ := numberItem_of_holds hholds "uniq".toList rfl
  obtain ⟨remainKey, hremain, hremainval⟩ := numberItem_of_holds hholds "remain".toList rfl
  have hzero : (0 : UInt8) ∈ reqFrame uniq p := by simp [reqFrame]
  have hstring : cString (reqFrame uniq p) =
      ascii (compact (reqFields (reqType p.last) uniq p.remain)) :=
    cString_append (zero_not_mem_compact hsmall) _
  have hobject : (J.parse (cString (reqFrame uniq p))).filter J.isObject = some item := by
    rw [hstring, hparse, filter_some, if_pos hholds.isObject]
  have hknown : ¬ (J.valueint reqKey ≠ metaReqJson ∧ J.valueint reqKey ≠ metaReqJsonPartial) := by
    rw [hreqval]
    cases p.last <;> decide
  have hless : ¬ sizeMax ≤ sizeT (J.valueint remainKey) := by
    rw [hremainval, sizeT_natCast hp, sizeMax]
    omega
  have hdata : ¬ (reqFrame uniq p).length ≤ (J.printUnformatted item).length + 1 := by
    rw [hprint]
    simp only [reqFrame, length_append, length_cons, length_nil]
    omega
  have hdrop : (reqFrame uniq p).drop ((J.printUnformatted item).length + 1) = p.data ++ [0] := by
    rw [hprint, reqFrame, drop_append, drop_of_length_le (Nat.le_succ _)]
    simp
  have hstatus : (if J.valueint reqKey = metaReqJsonPartial then ParseStatus.okPartial else .ok) =
      if p.last then .ok else .okPartial := by
    rw [hreqval]
    cases p.last <;> rfl
  rw [ipcParseSingleFrame, if_neg (not_not.2 hzero), hobject]
  simp only [hreq, if_neg hknown, huniq, hremain, if_neg hless, if_neg hdata, hdrop, hstatus,
    huniqval]
  simp

theorem joinFrame_ok {acc : Bytes} (hacc : msgRes = none ∧ acc = [] ∨ msgRes = some (acc ++ [0]))
    (hlimit : acc.length + (data.length + 1) ≤ inputMsgAllocLimit) :
    joinFrame true msgRes (data ++ [0]) = .ok ((acc ++ data) ++ [0]) := by
  rcases hacc with ⟨rfl, rfl⟩ | rfl
  · rfl
  · have hfits : ¬ inputMsgAllocLimit < (acc ++ [0]).length - 1 + (data ++ [0]).length := by
      simp only [length_append, length_cons, length_nil]
      omega
    rw [joinFrame, appviewMsgAppend, if_neg hfits]
    simp

theorem handleFrames_step (hJ : J.Compact) (hu : IsInt uniq) (hp : p.remain < 2 ^ 31)
    {r : Round} (hr : r.Delivers (reqFrame uniq p)) {msg : Bytes}
    (hjoin : joinFrame true msgRes (p.data ++ [0]) = .ok msg) (uniqueReq : ℤ)
    (rounds : List Round) : handleFrames J msgRes uniqueReq (r :: rounds) =
      if p.last then ⟨.ok, uniq, some msg, rounds⟩ else handleFrames J (some msg) uniq rounds := by
  simp only [handleFrames, hr.received, hr.frameAlloc, hr.msgAlloc,
    ipcParseSingleFrame_frame hJ hu hp, hjoin]
  cases p.last <;> simp

/-- **The handler puts the message together**, whatever it was cut into. The induction is
on the pieces; `acc` is what it has without the NUL. -/
theorem handle_cut (hJ : J.Compact) (hu : IsInt uniq) {ps : List (Piece UInt8)}
    (hcut : Cut data ps) {rounds : List Round}
    (hrounds : Forall₂ Round.Delivers rounds (ps.map (reqFrame uniq))) (more : List Round)
    (msgRes : Option Bytes) (acc : Bytes) (uniqueReq : ℤ)
    (hacc : msgRes = none ∧ acc = [] ∨ msgRes = some (acc ++ [0]))
    (hlimit : acc.length + (data.length + 1) ≤ inputMsgAllocLimit) :
    handleFrames J msgRes uniqueReq (rounds ++ more) =
      ⟨.ok, uniq, some (acc ++ data ++ [0]), more⟩ := by
  have hsize : data.length < 2 ^ 31 := by
    rw [inputMsgAllocLimit] at hlimit
    omega
  induction hcut generalizing rounds msgRes acc uniqueReq with
  | @last data hdata =>
    obtain ⟨r, rs, hr, hrs, rfl⟩ := forall₂_cons_right_iff.1 hrounds
    obtain rfl := forall₂_nil_right_iff.1 hrs
    exact handleFrames_step hJ hu hsize hr (joinFrame_ok hacc hlimit) uniqueReq more
  | @more data rest ps hdata hrest ih =>
    obtain ⟨r, rs, hr, hrs, rfl⟩ := forall₂_cons_right_iff.1 hrounds
    rw [length_append] at hlimit hsize
    have hjoin : joinFrame true msgRes (data ++ [0]) = .ok ((acc ++ data) ++ [0]) :=
      joinFrame_ok hacc (by omega)
    rw [cons_append, handleFrames_step hJ hu (by simpa using hsize) hr hjoin,
      if_neg Bool.false_ne_true, ih hrs (some _) (acc ++ data) uniq (.inr rfl) ?_ (by omega),
      append_assoc acc]
    rw [length_append]
    omega

end Handler

/-- **The request round trip.** For every message, unique id and capacity of the queue
with room for one byte of data in the first frame (the later metadata are not longer), the
sender comes to its end, and the handler, given its frames in order, returns the message
with one NUL behind it and takes no frame more. -/
theorem request_round_trip {J : CJson Item} (hJ : J.Compact) {G : GoJson} (hG : G.Compact)
    (m : Bytes) (hne : m ≠ []) (hlen : m.length + 1 ≤ inputMsgAllocLimit) (mqUniqId : ℤ)
    (hu : IsInt mqUniqId) (cap : ℕ) (hcap : (frameMeta G mqUniqId m.length).length + 2 ≤ cap)
    (send : ℕ → Option IpcError) (hsend : ∀ n, send n = none) : ∃ frames, (∀ fuel, m.length ≤ fuel →
        sendIpcRequest G mqUniqId cap send fuel 0 m = some (frames, .ok ())) ∧
      ∀ rounds, List.Forall₂ Round.Delivers rounds frames → ∀ more uniqueReq,
        ipcRequestHandler J true uniqueReq (rounds ++ more) =
          ⟨.ok, mqUniqId, some (m ++ [0]), more⟩ := by
  have hsize : m.length < 2 ^ 31 := by
    rw [inputMsgAllocLimit] at hlen
    omega
  obtain ⟨ps, hcut, hps⟩ := sendIpcRequest_cut send m hne
    (fun n hn => congrArg (· ++ [0]) (hG.marshal _ (small_reqFields false hu (hn.trans_lt hsize))))
    hcap
  obtain ⟨sent, result, -, hok, hall, hfuel⟩ := hps 0
  obtain rfl := hall hsend
  obtain rfl := hok rfl
  refine ⟨_, hfuel, fun rounds hrounds more uniqueReq => ?_⟩
  exact handle_cut hJ hu hcut hrounds more none [] uniqueReq (.inl ⟨rfl, rfl⟩) (by simpa using hlen)

def arrives (frame : Bytes) : Round := ⟨fun _ => .message frame, true, true⟩

theorem delivers_arrives (frames : List Bytes) :
    Forall₂ Round.Delivers (frames.map arrives) frames := by
  rw [forall₂_map_left_iff]
  exact forall₂_same.2 fun f _ => ⟨rfl, rfl, rfl⟩

/-- Three bytes in two frames. -/
theorem request_round_trip_three :
    ∃ frames, sendIpcRequest plainGoJson 7 33 (fun _ => none) 3 0 [104, 105, 106] =
        some (frames, .ok ()) ∧
      ipcRequestHandler plainCJson true (-1) (frames.map arrives) =
        ⟨.ok, 7, some [104, 105, 106, 0], []⟩ := by
  obtain ⟨frames, hsend, hhandle⟩ := request_round_trip plainCJson_compact plainGoJson_compact
    [104, 105, 106] (by decide) (by decide) 7 (by decide) 33 (by decide +kernel) (fun _ => none)
    (fun _ => rfl)
  refine ⟨frames, hsend 3 (by decide), ?_⟩
  simpa using hhandle (frames.map arrives) (delivers_arrives frames) [] (-1)

/-- `json.Marshal` writes integers of every size in decimal. -/
def GoJson.Decimal (G : GoJson) : Prop := ∀ req uniq remain,
  G.marshal (reqFields req uniq remain) = ascii (compact (reqFields req uniq remain))

/-- The message is cut into pieces, each with data; the frames of some of the first ones are sent,
of all of them if there is no error, and the function returns. -/
def Ends (G : GoJson) (mqUniqId : ℤ) (cap : ℕ) (send : ℕ → Option IpcError) (m : Bytes) : Prop :=
  ∃ (ps sent : List (Piece UInt8)) (result : Except IpcError Unit), (Cut m ps ∨ m = [] ∧ ps = []) ∧
    sent <+: ps ∧ (result = .ok () → sent = ps) ∧
    ∀ fuel, m.length ≤ fuel →
      sendIpcRequest G mqUniqId cap send fuel 0 m = some (sent.map (reqFrame mqUniqId), result)

theorem length_reqFrame (uniq : ℤ) (p : Piece UInt8) : (reqFrame uniq p).length =
    (ascii (compact (reqFields metaReqJsonPartial uniq p.remain))).length + p.data.length + 2 := by
  have htype : ∀ last, (decimal (reqType last)).length = 1 := by decide
  have hone : (decimal metaReqJsonPartial).length = 1 := by decide
  rw [reqFrame, compact_reqFields, compact_reqFields]
  simp only [length_ascii, length_append, length_cons, htype, hone, length_nil]
  omega

/-- **Sending ends**, every frame with data of the message, exactly if there is nothing to send, the
capacity is not just that of a frame without data, or the first send fails. -/
theorem sending_ends {G : GoJson} (hG : G.Decimal) (mqUniqId : ℤ) (cap : ℕ)
    (send : ℕ → Option IpcError) (m : Bytes) : Ends G mqUniqId cap send m ↔
      m = [] ∨ cap ≠ (frameMeta G mqUniqId m.length).length + 1 ∨ send 0 ≠ none := by
  rcases m with _ | ⟨b, bs⟩
  · refine iff_of_true ⟨[], [], .ok (), .inr ⟨rfl, rfl⟩, prefix_rfl, fun _ => rfl, ?_⟩ (.inl rfl)
    exact fun fuel _ => by cases fuel <;> rfl
  have hne : b :: bs ≠ [] := cons_ne_nil b bs
  rcases Nat.lt_trichotomy cap ((frameMeta G mqUniqId (b :: bs).length).length + 1) with
    hless | hsame | hmore
  · refine iff_of_true ?_ (.inr (.inl hless.ne))
    refine ⟨_, [], .error .request, .inl (.last hne), nil_prefix, fun h => (by cases h),
      fun fuel hfuel => ?_⟩
    obtain ⟨fuel, rfl⟩ := Nat.exists_eq_add_one_of_ne_zero (Nat.ne_zero_of_lt hfuel)
    have herror : prepareFrame G mqUniqId cap (b :: bs) = .error .request := if_pos (by omega)
    simp [sendIpcRequest, herror]
  · -- a frame without data, which leaves the message as it is
    have hprepare : prepareFrame G mqUniqId cap (b :: bs) =
        .ok (frameMeta G mqUniqId (b :: bs).length ++ [0], 0) := by
      have hroom : (cap : ℤ) - (frameMeta G mqUniqId (b :: bs).length).length - 1 = 0 := by omega
      rw [prepareFrame, hroom]
      simp
      omega
    rcases hsend : send 0 with _ | e
    · refine iff_of_false ?_ (by simp [hsame])
      rintro ⟨ps, sent, result, hcut, hsent, -, hfuel⟩
      have hrun := hfuel (bs.length + 1) (Nat.le_refl _)
      simp only [sendIpcRequest, hprepare, hsend, drop_zero, if_neg hne] at hrun
      obtain ⟨r, -, hr⟩ := map_eq_some_iff.1 hrun
      obtain ⟨p, ps', rfl⟩ : ∃ p ps', sent = p :: ps' := by
        cases sent with
        | nil => cases hr
        | cons p ps' => exact ⟨p, ps', rfl⟩
      have hframe : frameMeta G mqUniqId (b :: bs).length ++ [0] = reqFrame mqUniqId p :=
        (cons.inj (congrArg Prod.fst hr)).1
      have hcut := hcut.resolve_right fun h => hne h.1
      obtain ⟨rest, rfl⟩ := hsent
      have hdata := length_pos_iff.2 (hcut.data_ne_nil p mem_cons_self)
      have hremain : p.remain = (b :: bs).length := hcut.remain_head
      have hlen := congrArg length hframe
      rw [length_reqFrame, hremain, frameMeta, hG] at hlen
      simp only [length_append, length_singleton] at hlen
      omega
    · refine iff_of_true ?_ (.inr (.inr (by simp)))
      refine ⟨_, [], .error e, .inl (.last hne), nil_prefix, fun h => (by cases h),
        fun fuel hfuel => ?_⟩
      obtain ⟨fuel, rfl⟩ := Nat.exists_eq_add_one_of_ne_zero (Nat.ne_zero_of_lt hfuel)
      simp [sendIpcRequest, hprepare, hsend]
  · refine iff_of_true ?_ (.inr (.inl hmore.ne'))
    obtain ⟨ps, hcut, hps⟩ := sendIpcRequest_cut send (b :: bs) hne
      (fun n _ => congrArg (· ++ [0]) (hG _ _ _)) hmore
    obtain ⟨sent, result, hsent, hok, -, hfuel⟩ := hps 0
    exact ⟨ps, sent, result, .inl hcut, hsent, hok, hfuel⟩

theorem sending_ends_three : Ends plainGoJson 7 33 (fun _ => none) [104, 105, 106] :=
  (sending_ends (fun _ _ _ => rfl) 7 33 _ _).2 (.inr (.inl (by decide +kernel)))

/-- Frames without data, for ever. -/
theorem sending_never_ends :
    (fun fuel n => sendIpcRequest plainGoJson 7 31 (fun _ => none) fuel n [104]) =
      fun _ _ => none := by
  funext fuel
  induction fuel with
  | zero => rfl
  | succ fuel ih =>
    have hrest := fun n => congrFun ih n
    funext n
    have hprepare : prepareFrame plainGoJson 7 31 [104] =
        .ok (frameMeta plainGoJson 7 1 ++ [0], 0) := by
      decide +kernel
    simp only [sendIpcRequest, hprepare, drop_zero, hrest]
    rfl

/-! ## The statuses the handler ends with -/

section Statuses

variable {J : CJson Item}

def metadataRead (J : CJson Item) (msgBuf : Bytes) : Option (Item × ℤ) :=
  if (0 : UInt8) ∉ msgBuf then none
  else
    ((J.parse (cString msgBuf)).filter J.isObject).bind fun msgJson =>
      (numberItem J msgJson "req".toList).bind fun reqKey =>
        if J.valueint reqKey ≠ metaReqJson ∧ J.valueint reqKey ≠ metaReqJsonPartial then none
        else (numberItem J msgJson "uniq".toList).map fun _ => (msgJson, J.valueint reqKey)

def HasRemain (J : CJson Item) (msgJson : Item) : Prop :=
  ∃ remainKey, numberItem J msgJson "remain".toList = some remainKey ∧
    sizeT (J.valueint remainKey) < sizeMax

def BadRemain (J : CJson Item) (msgBuf : Bytes) : Prop :=
  ∃ msgJson req, metadataRead J msgBuf = some (msgJson, req) ∧ ¬ HasRemain J msgJson

def PartialFrame (J : CJson Item) (msgBuf data : Bytes) : Prop :=
  ∃ msgJson, metadataRead J msgBuf = some (msgJson, metaReqJsonPartial) ∧ HasRemain J msgJson ∧
    (J.printUnformatted msgJson).length + 1 < msgBuf.length ∧
    data = msgBuf.drop ((J.printUnformatted msgJson).length + 1)

def MeetsBadRemain (J : CJson Item) : Option Bytes → List Round → Prop
  | _, [] => False
  | msgRes, r :: rounds =>
    ∃ msgBuf, ipcReceiveFrameWithRetry r.mqReceive = .ok msgBuf ∧
      (BadRemain J msgBuf ∨
        ∃ data msg, PartialFrame J msgBuf data ∧ r.frameAlloc = true ∧
          joinFrame r.msgAlloc msgRes data = .ok msg ∧ MeetsBadRemain J (some msg) rounds)

theorem ipcParseSingleFrame_cases (J : CJson Item) (frameAlloc : Bool) (msgBuf : Bytes)
    (uniqVal : ℤ) :
    let p := ipcParseSingleFrame J frameAlloc msgBuf uniqVal sizeMax
    (p.appviewMsg = none ∧ p.parseStatus ∈ [ParseStatus.jsonError, .reqError, .uniqError] ∧
      metadataRead J msgBuf = none) ∨
    ∃ msgJson req, metadataRead J msgBuf = some (msgJson, req) ∧
      ((p.appviewMsg = none ∧ p.parseStatus = .remainError ∧ ¬ HasRemain J msgJson) ∨
       HasRemain J msgJson ∧ ((p.appviewMsg = none ∧
            p.parseStatus ∈ [ParseStatus.missingAppviewDataError, .allocationError] ∧
            (msgBuf.length ≤ (J.printUnformatted msgJson).length + 1 ∨ frameAlloc = false)) ∨
         (p.appviewMsg = some (msgBuf.drop ((J.printUnformatted msgJson).length + 1)) ∧
            p.parseStatus = (if req = metaReqJsonPartial then .okPartial else .ok) ∧
            (J.printUnformatted msgJson).length + 1 < msgBuf.length ∧ frameAlloc = true))) := by
  by_cases hnul : (0 : UInt8) ∉ msgBuf
  · simp [ipcParseSingleFrame, metadataRead, hnul]
  rcases hobject : (J.parse (cString msgBuf)).filter J.isObject with _ | msgJson
  · simp [ipcParseSingleFrame, metadataRead, hnul, hobject]
  rcases hreq : numberItem J msgJson "req".toList with _ | reqKey
  · left
    simp only [ipcParseSingleFrame, metadataRead, if_neg hnul, hobject, hreq, bind_some, bind_none]
    decide
  by_cases hknown : J.valueint reqKey ≠ metaReqJson ∧ J.valueint reqKey ≠ metaReqJsonPartial
  · left
    simp only [ipcParseSingleFrame, metadataRead, if_neg hnul, hobject, hreq, if_pos hknown,
      bind_some]
    decide
  rcases huniq : numberItem J msgJson "uniq".toList with _ | uniqKey
  · left
    simp only [ipcParseSingleFrame, metadataRead, if_neg hnul, hobject, hreq, if_neg hknown, huniq,
      bind_some, map_none]
    decide
  have hread : metadataRead J msgBuf = some (msgJson, J.valueint reqKey) := by
    simp only [metadataRead, if_neg hnul, hobject, hreq, huniq, bind_some, map_some, if_neg hknown]
  refine .inr ⟨msgJson, J.valueint reqKey, hread, ?_⟩
  simp only [ipcParseSingleFrame, if_neg hnul, hobject, hreq, if_neg hknown, huniq]
  rcases hremain : numberItem J msgJson "remain".toList with _ | remainKey
  · left
    simp only [HasRemain, hremain]
    simp
  by_cases hless : sizeMax ≤ sizeT (J.valueint remainKey)
  · left
    simp only [HasRemain, hremain, if_pos hless, some.injEq, exists_eq_left', true_and]
    exact not_lt.2 hless
  refine .inr ⟨⟨remainKey, hremain, not_le.1 hless⟩, ?_⟩
  simp only [if_neg hless]
  by_cases hdata : msgBuf.length ≤ (J.printUnformatted msgJson).length + 1
  · simp [hdata]
  · cases frameAlloc with
    | false => simp [hdata]
    | true => simp [hdata, not_le.1 hdata]

variable {msgBuf : Bytes} {msgJson : Item} {req : ℤ} {msgRes : Option Bytes}

theorem badRemain_iff (hread : metadataRead J msgBuf = some (msgJson, req)) :
    BadRemain J msgBuf ↔ ¬ HasRemain J msgJson := by
  simp [BadRemain, hread]

theorem partialFrame_iff {data : Bytes} (hread : metadataRead J msgBuf = some (msgJson, req)) :
    PartialFrame J msgBuf data ↔ req = metaReqJsonPartial ∧ HasRemain J msgJson ∧
      (J.printUnformatted msgJson).length + 1 < msgBuf.length ∧
      data = msgBuf.drop ((J.printUnformatted msgJson).length + 1) := by
  constructor
  · rintro ⟨item, hitem, hrest⟩
    obtain ⟨rfl, rfl⟩ : msgJson = item ∧ req = metaReqJsonPartial := by
      simpa [hread] using hitem
    exact ⟨rfl, hrest⟩
  · rintro ⟨rfl, hrest⟩
    exact ⟨msgJson, hread, hrest⟩

theorem joinFrame_error {msgAlloc : Bool} {frame : Bytes} {status : ParseStatus}
    (h : joinFrame msgAlloc msgRes frame = .error status) :
    status = .appviewSizeError ∨ status = .allocationError := by
  unfold joinFrame appviewMsgAppend at h
  split at h <;> split_ifs at h <;> simp_all

theorem handleFrames_status (msgRes : Option Bytes) (uniqueReq : ℤ) (rounds : List Round) :
    let r := handleFrames J msgRes uniqueReq rounds
    (r.parseStatus = .remainError ↔ MeetsBadRemain J msgRes rounds) ∧
      r.parseStatus ≠ .genericError ∧ r.parseStatus ≠ .okPartial ∧
      (r.parseStatus ≠ .ok → r.msgRes = none) := by
  induction rounds generalizing msgRes uniqueReq with
  | nil => simp [handleFrames, MeetsBadRemain]
  | cons r rounds ih =>
    rcases hreceive : ipcReceiveFrameWithRetry r.mqReceive with _ | _ | msgBuf
    · simp [handleFrames, MeetsBadRemain, hreceive]
    · simp [handleFrames, MeetsBadRemain, hreceive]
    have hmeets : MeetsBadRemain J msgRes (r :: rounds) ↔ BadRemain J msgBuf ∨
        ∃ data msg, PartialFrame J msgBuf data ∧ r.frameAlloc = true ∧
          joinFrame r.msgAlloc msgRes data = .ok msg ∧ MeetsBadRemain J (some msg) rounds := by
      simp [MeetsBadRemain, hreceive]
    simp only [hmeets, handleFrames, hreceive]
    rcases ipcParseSingleFrame_cases J r.frameAlloc msgBuf uniqueReq with
      ⟨hmsg, hstatus, hread⟩ | ⟨msgJson, req, hread, ⟨hmsg, hstatus, hremain⟩ | ⟨hremain,
        ⟨hmsg, hstatus, hshort⟩ | ⟨hmsg, hstatus, hlong, halloc⟩⟩⟩
    · -- the metadata are not in order
      have hbad : ¬ BadRemain J msgBuf := by simp [BadRemain, hread]
      have hpart : ∀ data, ¬ PartialFrame J msgBuf data := by simp [PartialFrame, hread]
      simp only [mem_cons, not_mem_nil, or_false] at hstatus
      simp only [hmsg, hbad, hpart]
      rcases hstatus with h | h | h <;> simp [h]
    · simp [hmsg, hstatus, badRemain_iff hread, hremain]
    · -- no data, or no memory for them
      have hpart : ∀ data, ¬ (PartialFrame J msgBuf data ∧ r.frameAlloc = true) := by
        rintro data ⟨hpart, halloc⟩
        rcases hshort with hshort | hshort
        · exact absurd ((partialFrame_iff hread).1 hpart).2.2.1 (not_lt.2 hshort)
        · rw [halloc] at hshort
          cases hshort
      simp only [mem_cons, not_mem_nil, or_false] at hstatus
      simp only [hmsg, badRemain_iff hread, hremain, ← and_assoc, hpart]
      rcases hstatus with h | h <;> simp [h]
    · -- the data are there; the frame is the last, or the loop goes on
      rw [halloc] at hmsg hstatus
      simp only [halloc, hmsg, badRemain_iff hread, hremain, not_true, false_or,
        partialFrame_iff hread, hlong, true_and]
      rcases hjoin : joinFrame r.msgAlloc msgRes
        (msgBuf.drop ((J.printUnformatted msgJson).length + 1)) with status | msg
      · rcases joinFrame_error hjoin with rfl | rfl <;> simp [hjoin]
      · by_cases hreq : req = metaReqJsonPartial
        · simpa [hstatus, hreq, hjoin, ih] using (ih (some msg) _).2.2.2
        · simp [hstatus, hreq]

/-- **The unreachable branch is reached exactly where a frame fails in its `remain`
member.** For every sequence of messages on the queue and every outcome of the allocations,
all statuses handed to `ipcSendFailedResponse` are listed if and only if the handler does
not come to such a frame. -/
theorem parse_status_listed (J : CJson Item) (bufAlloc : Bool) (rounds : List Round) :
    (∀ status ∈ ipcCommunication J bufAlloc rounds, translateParseStatusToResp status ≠ none) ↔
    ¬ (bufAlloc = true ∧ MeetsBadRemain J none rounds) := by
  cases bufAlloc with
  | false => simp [ipcCommunication, ipcRequestHandler, translateParseStatusToResp]
  | true =>
    obtain ⟨hremain, hgeneric, hpart, -⟩ := handleFrames_status (J := J) none (-1) rounds
    have hcommunication : ipcCommunication J true rounds =
        if (handleFrames J none (-1) rounds).parseStatus = .ok then none
        else some (handleFrames J none (-1) rounds).parseStatus := rfl
    rw [hcommunication, ← hremain]
    -- of the statuses that are not listed only one can come here
    generalize (handleFrames J none (-1) rounds).parseStatus = status at hgeneric hpart
    cases status <;> simp_all [translateParseStatusToResp]

/-- A frame with `req` and `uniq`, and no `remain`. -/
theorem parse_status_listed_remain : ipcCommunication plainCJson true
        [arrives (ascii "\x7b\"req\":0,\"uniq\":7\x7d".toList ++ [0])] =
      some .remainError ∧ translateParseStatusToResp .remainError = none := by
  decide +kernel

/-! ## The order of the frames -/

def remainOf (J : CJson Item) (msgBuf : Bytes) : Option ℕ :=
  (metadataRead J msgBuf).bind fun r =>
    (numberItem J r.1 "remain".toList).map fun remainKey => sizeT (J.valueint remainKey)

/-- Of the frames on the queue, up to the first one that is marked as the last, some frame has a
`remain` that is not below that of the frame before it. -/
def Misordered (J : CJson Item) : Option ℕ → List Round → Prop
  | _, [] => False
  | before, r :: rounds => ∃ msgBuf, ipcReceiveFrameWithRetry r.mqReceive = .ok msgBuf ∧
      ((∃ b ∈ before, ∃ remain ∈ remainOf J msgBuf, b ≤ remain) ∨
        (metadataRead J msgBuf).map Prod.snd ≠ some metaReqJson ∧
          Misordered J (remainOf J msgBuf) rounds)

/-- A frame with its metadata in order and with data. -/
def GoodFrame (J : CJson Item) (req : ℤ) (msgBuf data : Bytes) : Prop :=
  ∃ msgJson, metadataRead J msgBuf = some (msgJson, req) ∧ HasRemain J msgJson ∧
    (J.printUnformatted msgJson).length + 1 < msgBuf.length ∧
    data = msgBuf.drop ((J.printUnformatted msgJson).length + 1)

/-- The frames are received and in order one by one, there is memory for them, and the last one
comes before they exceed the limit. -/
def Completes (J : CJson Item) : Option Bytes → List Round → Prop
  | _, [] => False
  | msgRes, r :: rounds => ∃ msgBuf data msg, ipcReceiveFrameWithRetry r.mqReceive = .ok msgBuf ∧
      r.frameAlloc = true ∧ joinFrame r.msgAlloc msgRes data = .ok msg ∧
      (GoodFrame J metaReqJson msgBuf data ∨
        GoodFrame J metaReqJsonPartial msgBuf data ∧ Completes J (some msg) rounds)

theorem req_of_metadataRead (h : metadataRead J msgBuf = some (msgJson, req)) :
    req = metaReqJson ∨ req = metaReqJsonPartial := by
  rw [metadataRead] at h
  split_ifs at h
  obtain ⟨item, -, h⟩ := bind_eq_some_iff.1 h
  obtain ⟨reqKey, -, h⟩ := bind_eq_some_iff.1 h
  split_ifs at h with hknown
  obtain ⟨_, -, h⟩ := map_eq_some_iff.1 h
  cases h
  exact or_iff_not_imp_left.2 fun hne => not_not.1 fun hne' => hknown ⟨hne, hne'⟩

theorem goodFrame_iff {data : Bytes} {known : ℤ}
    (hread : metadataRead J msgBuf = some (msgJson, req)) :
    GoodFrame J known msgBuf data ↔ req = known ∧ HasRemain J msgJson ∧
      (J.printUnformatted msgJson).length + 1 < msgBuf.length ∧
      data = msgBuf.drop ((J.printUnformatted msgJson).length + 1) := by
  constructor
  · rintro ⟨item, hitem, hrest⟩
    cases hread.symm.trans hitem
    exact ⟨rfl, hrest⟩
  · rintro ⟨rfl, hrest⟩
    exact ⟨msgJson, hread, hrest⟩

/-- There is a message exactly if the frames complete one; their order plays no part. -/
theorem handleFrames_completes (msgRes : Option Bytes) (uniqueReq : ℤ) (rounds : List Round) :
    (handleFrames J msgRes uniqueReq rounds).msgRes ≠ none ↔ Completes J msgRes rounds := by
  induction rounds generalizing msgRes uniqueReq with
  | nil => simp [handleFrames, Completes]
  | cons r rounds ih =>
    rcases hreceive : ipcReceiveFrameWithRetry r.mqReceive with _ | _ | msgBuf
    · simp [handleFrames, Completes, hreceive]
    · simp [handleFrames, Completes, hreceive]
    have hcompletes : Completes J msgRes (r :: rounds) ↔ ∃ data msg, r.frameAlloc = true ∧
        joinFrame r.msgAlloc msgRes data = .ok msg ∧ (GoodFrame J metaReqJson msgBuf data ∨
          GoodFrame J metaReqJsonPartial msgBuf data ∧ Completes J (some msg) rounds) := by
      simp [Completes, hreceive]
    simp only [hcompletes, handleFrames, hreceive]
    rcases ipcParseSingleFrame_cases J r.frameAlloc msgBuf uniqueReq with
      ⟨hmsg, -, hread⟩ | ⟨msgJson, req, hread, ⟨hmsg, -, hremain⟩ | ⟨hremain,
        ⟨hmsg, -, hshort⟩ | ⟨hmsg, hstatus, hlong, halloc⟩⟩⟩
    · have hbad : ∀ known data, ¬ GoodFrame J known msgBuf data := by simp [GoodFrame, hread]
      simp [hmsg, hbad]
    · simp [hmsg, goodFrame_iff hread, hremain]
    · rcases hshort with hshort | hshort
      · simp [hmsg, goodFrame_iff hread, not_lt.2 hshort]
      · simp only [hshort] at hmsg ⊢
        simp [hmsg]
    · rw [halloc] at hmsg hstatus
      simp only [halloc, hmsg, goodFrame_iff hread, hremain, hlong, true_and]
      rcases hjoin : joinFrame r.msgAlloc msgRes
        (msgBuf.drop ((J.printUnformatted msgJson).length + 1)) with status | msg
      · refine iff_of_false (by simp) ?_
        rintro ⟨data, msg, hok, hgood⟩
        have hdata : data = msgBuf.drop ((J.printUnformatted msgJson).length + 1) := by
          rcases hgood with ⟨-, h⟩ | ⟨⟨-, h⟩, -⟩ <;> exact h
        rw [hdata, hjoin] at hok
        cases hok
      · rcases req_of_metadataRead hread with rfl | rfl
        · have hne : metaReqJson ≠ metaReqJsonPartial := by decide
          simp [hstatus, hne, hjoin]
        · have hne : metaReqJsonPartial ≠ metaReqJson := by decide
          simp [hstatus, hne, hjoin, ih]

/-- **Nothing orders the frames**: `remainLen` is set anew for each of them, so a request with
frames out of order is rejected exactly if it is faulty in another way. -/
theorem misordered_rejected (J : CJson Item) (bufAlloc : Bool) (uniqueReq : ℤ)
    (rounds : List Round) : (Misordered J none rounds →
      (ipcRequestHandler J bufAlloc uniqueReq rounds).msgRes = none) ↔
    (Misordered J none rounds → bufAlloc = false ∨ ¬ Completes J none rounds) := by
  refine imp_congr_right fun _ => ?_
  cases bufAlloc with
  | false => simp [ipcRequestHandler]
  | true =>
    rw [ipcRequestHandler, if_neg (by decide), ← handleFrames_completes none uniqueReq]
    simp

def remainFrame (req remain : ℤ) : Bytes := ascii (compact (reqFields req 7 remain)) ++ [0, 104, 0]

/-- The second frame leaves as much as the first one. -/
theorem misordered_accepted :
    Misordered plainCJson none [arrives (remainFrame 1 2), arrives (remainFrame 0 2)] ∧
      (ipcRequestHandler plainCJson true 0
        [arrives (remainFrame 1 2), arrives (remainFrame 0 2)]).msgRes = some [104, 104, 0] := by
  refine ⟨⟨_, rfl, .inr ⟨by decide +kernel, _, rfl, .inl ⟨2, ?_, 2, ?_, Nat.le_refl 2⟩⟩⟩,
    by decide +kernel⟩
  · decide +kernel
  · decide +kernel

/-! ## The data of a frame -/

/-- **The data are found exactly where cJSON prints the metadata in as many bytes as were sent**:
the offset is that of the printed text. -/
theorem frame_data_iff {text data : Bytes} {msgJson : Item} {req : ℤ}
    (hread : metadataRead J (text ++ 0 :: data) = some (msgJson, req))
    (hremain : HasRemain J msgJson) (uniqVal : ℤ) :
    (ipcParseSingleFrame J true (text ++ 0 :: data) uniqVal sizeMax).appviewMsg = some data ↔
      data ≠ [] ∧ (J.printUnformatted msgJson).length = text.length := by
  rw [← length_pos_iff]
  have hlength : (text ++ 0 :: data).length = text.length + (data.length + 1) := by simp
  rcases ipcParseSingleFrame_cases J true (text ++ 0 :: data) uniqVal with
    ⟨-, -, hnone⟩ | ⟨item, req', hitem, ⟨-, -, hbad⟩ | ⟨-, ⟨hmsg, -, hshort⟩ | ⟨hmsg, -, hlong, -⟩⟩⟩
  · cases hread.symm.trans hnone
  · cases hread.symm.trans hitem
    exact absurd hremain hbad
  · cases hread.symm.trans hitem
    rw [hmsg]
    simp only [Bool.true_eq_false, or_false, hlength] at hshort
    constructor
    · intro h
      cases h
    · rintro ⟨hpos, hlen⟩
      omega
  · cases hread.symm.trans hitem
    rw [hmsg]
    constructor
    · intro hsome
      have hlen := congrArg length (some.inj hsome)
      rw [length_drop] at hlen
      omega
    · rintro ⟨-, hlen⟩
      rw [hlen, drop_append, drop_of_length_le (Nat.le_succ _)]
      simp

theorem frame_data_compact : (ipcParseSingleFrame plainCJson true
      (ascii (compact (reqFields 0 7 2)) ++ [0, 104, 105]) 0 sizeMax).appviewMsg =
        some [104, 105] :=
  (@frame_data_iff _ plainCJson (ascii (compact (reqFields 0 7 2))) [104, 105]
    (.object (reqFields 0 7 2)) 0 rfl ⟨_, rfl, by decide⟩ 0).2 ⟨by decide, rfl⟩

/-- Reads metadata with blanks as well. -/
def spacedCJson : CJson PlainItem :=
  { plainCJson with parse := fun bs => plainCJson.parse (bs.filter (· ≠ 32)) }

/-- A blank in the metadata: the NUL is taken for data. -/
theorem frame_data_spaced : (ipcParseSingleFrame spacedCJson true
      (ascii "\x7b\"req\":0, \"uniq\":7,\"remain\":2\x7d".toList ++ [0, 104, 105]) 0
        sizeMax).appviewMsg = some [0, 104, 105] := by
  decide +kernel

end Statuses

end AppView.Ipc

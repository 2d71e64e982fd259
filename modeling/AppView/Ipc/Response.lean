import AppView.Framework.Countdown
import AppView.Ipc.Json
import AppView.StrSearch

/-!
# The response: from the library to the command line tool

`ipcSendSuccessfulResponse` cuts the text of a response into frames. **`response_round_trip`**:
either nothing is sent, for want of room, or the receiver gets exactly the text.
-/

namespace AppView.Ipc

open AppView.Framework List

/-! ## The sender -/

inductive RespResult where
  | genericError
  | allocationError
  | unsufficentMsgbufError
  | sendRetryLimit
  | sendOther
  | requestError
  | processingError
  | ok
  deriving DecidableEq, Repr

inductive SendAnswer where
  | sent
  | again
  | other
  deriving DecidableEq, Repr

def sendTries (answer : ℕ → SendAnswer) : ℕ → ℕ → RespResult
  | 0, _ => .sendRetryLimit
  | retries + 1, i =>
    match answer i with
    | .sent => .ok
    | .again => sendTries answer retries (i + 1)
    | .other => .sendOther

def ipcSendFrameWithRetry (answer : ℕ → SendAnswer) : RespResult := sendTries answer 500 0

def respOk : ℤ := 200

def respOkPartialData : ℤ := 206

variable {Item : Type}

def createMetaResp (J : CJson Item) (status uniqReq remainLen : ℤ) : Item :=
  J.addNumber (J.addNumber (J.addNumber J.createObject "status".toList status)
    "uniq".toList uniqReq) "remain".toList remainLen

def strstr (haystack needle : Bytes) : Option ℕ :=
  (List.range (haystack.length + 1)).find? fun i => decide (OccursAt needle haystack i)

def patchStatus (metadataBytes : Bytes) : Option Bytes :=
  let needle := ascii "\"status\":200".toList
  (strstr metadataBytes needle).map fun i => metadataBytes.set (i + (needle.length + 1 - 2)) 54

def dataSendLen (msgBufSize metadataLen appviewDataRemainLen : ℕ) : ℕ :=
  let maxDataLen := msgBufSize - metadataLen
  if appviewDataRemainLen < maxDataLen then appviewDataRemainLen else maxDataLen

theorem dataSendLen_pos {msgBufSize metadataLen remain : ℕ} (hroom : metadataLen < msgBufSize)
    (hremain : 0 < remain) : 0 < dataSendLen msgBufSize metadataLen remain := by
  simp only [dataSendLen]
  split <;> omega

theorem dataSendLen_le (msgBufSize metadataLen remain : ℕ) :
    dataSendLen msgBufSize metadataLen remain ≤ msgBufSize - metadataLen := by
  simp only [dataSendLen]
  split <;> omega

def metadataBytes (J : CJson Item) (uniqReq : ℤ) (appviewDataRemainLen : ℕ) : Bytes :=
  J.printUnformatted (createMetaResp J respOk uniqReq (cInt appviewDataRemainLen))

/-- The response in frames, until all of it is sent or a frame is not. -/
def sendFrames (J : CJson Item) (mqSend : ℕ → ℕ → SendAnswer) (msgBufSize : ℕ) (uniqReq : ℤ)
    (n : ℕ) (data : Bytes) : List Bytes × Option RespResult :=
  if _h : data = [] then ([], some .ok)
  else if _h : msgBufSize ≤ (metadataBytes J uniqReq data.length).length + 1 then
    ([], some .unsufficentMsgbufError)
  else
    let k := dataSendLen msgBufSize ((metadataBytes J uniqReq data.length).length + 1) data.length
    match if data.drop k = [] then some (metadataBytes J uniqReq data.length)
      else patchStatus (metadataBytes J uniqReq data.length) with
    | none => ([], none)
    | some metadata =>
      match ipcSendFrameWithRetry (mqSend n) with
      | .ok =>
        let r := sendFrames J mqSend msgBufSize uniqReq (n + 1) (data.drop k)
        ((metadata ++ 0 :: data.take k) :: r.1, r.2)
      | res => ([], some res)
termination_by data.length
decreasing_by
  have hpos : 0 < data.length := length_pos_iff.2 ‹_›
  have hk := dataSendLen_pos (not_le.1 ‹_›) hpos
  rw [length_drop]
  omega

def ipcProcessRequestAndPrepareResponse (J : CJson Item)
    (supportedResp : ℕ → Item → Option (Option Bytes)) (appViewError : Option (Option Bytes))
    (appviewReq : Bytes) (res : RespResult) : RespResult × Option (Option Bytes) :=
  match J.parse (cString appviewReq) with
  | none => (.requestError, appViewError)
  | some appviewReqJson =>
    if J.isObject appviewReqJson then
      match J.getObjectItemCaseSensitive appviewReqJson "req".toList with
      | none => (.requestError, appViewError)
      | some cmdReq =>
        if J.isNumber cmdReq then
          -- the first of the six commands that is meant, or `IPC_CMD_UNKNOWN`
          let supportedCmd := ((List.range 6).find? fun c : ℕ => J.valueint cmdReq = c).getD 6
          match supportedResp supportedCmd appviewReqJson with
          | none => (.processingError, none)
          | some resp => (res, some resp)
        else (.requestError, appViewError)
    else (.requestError, appViewError)

def ipcSendSuccessfulResponse (J : CJson Item)
    (supportedResp : ℕ → Item → Option (Option Bytes)) (appViewError : Option (Option Bytes))
    (mqSend : ℕ → ℕ → SendAnswer) (msgBufSize : ℕ) (appviewDataReq : Bytes) (uniqReq : ℤ) :
    List Bytes × Option RespResult :=
  match ipcProcessRequestAndPrepareResponse J supportedResp appViewError appviewDataReq
    .allocationError with
  | (_, some (some appviewRespBytes)) =>
    sendFrames J mqSend msgBufSize uniqReq 0 (cString appviewRespBytes)
  | (res, _) => ([], some res)

/-! ## The receiver -/

inductive IpcError where
  | request
  | frameInconsistentUniqId
  | frameInconsistentDataSize
  | receiveTimeout
  | sendTimeout
  | missingMandatoryField (name : List Char)
  /-- An error of `encoding/json` or of the queue, handed on. -/
  | other
  deriving DecidableEq, Repr

structure MetaResponse where
  status : ℤ
  uniq : ℤ
  remain : ℤ
  deriving DecidableEq, Repr

def unmarshalMeta (G : GoJson) (msg : Bytes) : Except IpcError MetaResponse :=
  match G.unmarshal msg with
  | none => .error .other
  | some metaResp =>
    match metaResp "status".toList with
    | none => .error (.missingMandatoryField "status".toList)
    | some status =>
      match metaResp "uniq".toList with
      | none => .error (.missingMandatoryField "uniq".toList)
      | some uniq =>
        match metaResp "remain".toList with
        | none => .error (.missingMandatoryField "remain".toList)
        | some remain => .ok ⟨status, uniq, remain⟩

def ipcGetMsgSeparatorIndex (msg : Bytes) : Option ℕ := msg.findIdx? (· = 0)

def parseIpcFrame (G : GoJson) (msg : Bytes) : Except IpcError (MetaResponse × Bytes) :=
  match ipcGetMsgSeparatorIndex msg with
  | none => (unmarshalMeta G msg).map fun metaResp => (metaResp, [])
  | some sepIndx =>
    (unmarshalMeta G (msg.take sepIndx)).map fun metaResp =>
      (metaResp, msg.drop (sepIndx + 1))

/-- Frames are collected until one is the last. -/
def receiveFrames (G : GoJson) (mqUniqId : ℤ) :
    Option ℤ → Bytes → List (Except IpcError Bytes) → Except IpcError (Bytes × ℤ)
  | _, _, [] => .error .receiveTimeout
  | _, _, .error e :: _ => .error e
  | previousFrameRemainBytes, appviewMsg, .ok msg :: more =>
    match parseIpcFrame G msg with
    | .error e => .error e
    | .ok (ipcFrameMeta, appviewFrame) =>
      if ipcFrameMeta.uniq ≠ mqUniqId then .error .frameInconsistentUniqId
      else if previousFrameRemainBytes.any (decide <| · < ipcFrameMeta.remain) then
        .error .frameInconsistentDataSize
      else if ipcFrameMeta.status ≠ respOkPartialData then
        .ok (appviewMsg ++ appviewFrame, ipcFrameMeta.status)
      else receiveFrames G mqUniqId (some ipcFrameMeta.remain) (appviewMsg ++ appviewFrame) more

def receiveIpcResponse (G : GoJson) (mqUniqId : ℤ) (received : List (Except IpcError Bytes)) :
    Except IpcError (Bytes × ℤ) :=
  receiveFrames G mqUniqId none [] received

/-! ## The frame of a piece -/

def respFields (status uniq remain : ℤ) : Fields :=
  [("status".toList, status), ("uniq".toList, uniq), ("remain".toList, remain)]

def respStatus (last : Bool) : ℤ := if last then respOk else respOkPartialData

def respFrame (uniq : ℤ) (p : Piece UInt8) : Bytes :=
  ascii (compact (respFields (respStatus p.last) uniq p.remain)) ++ 0 :: p.data

/-! ## The sender cuts -/

theorem small_respFields {status uniq remain : ℤ} (hs : IsInt status) (hu : IsInt uniq)
    (hr : IsInt remain) : Small (respFields status uniq remain) := by
  simp only [Small, respFields, mem_cons, not_mem_nil, or_false]
  rintro f (rfl | rfl | rfl)
  · exact ⟨show PlainName "status".toList by decide, hs⟩
  · exact ⟨show PlainName "uniq".toList by decide, hu⟩
  · exact ⟨show PlainName "remain".toList by decide, hr⟩

theorem isInt_natCast {n : ℕ} (h : n < 2 ^ 31) : IsInt n := ⟨by omega, by omega⟩

section Sender

variable {J : CJson Item} {uniq : ℤ} {n : ℕ}

theorem metadataBytes_eq (hJ : J.Compact) (hu : IsInt uniq) (hn : n < 2 ^ 31) :
    metadataBytes J uniq n = ascii (compact (respFields respOk uniq n)) := by
  rw [metadataBytes, cInt_of_lt hn]
  exact hJ.print _ (small_respFields (by decide) hu (isInt_natCast hn))

theorem length_respFields_mono (status uniq : ℤ) {m : ℕ} (h : m ≤ n) :
    (ascii (compact (respFields status uniq m))).length ≤
      (ascii (compact (respFields status uniq n))).length := by
  have hlen := length_toDigits_mono h
  simp only [length_ascii, compact, respFields, furtherMembers, member, decimal_natCast,
    length_cons, length_append]
  omega

theorem compact_respFields (status uniq remain : ℤ) :
    compact (respFields status uniq remain) = "\x7b\"status\":".toList ++ (decimal status ++
      furtherMembers [("uniq".toList, uniq), ("remain".toList, remain)]) := by
  simp [compact, respFields, member]

theorem patchStatus_respFields (uniq remain : ℤ) :
    patchStatus (ascii (compact (respFields respOk uniq remain))) =
      some (ascii (compact (respFields respOkPartialData uniq remain))) := by
  rw [compact_respFields, compact_respFields]
  generalize furtherMembers [("uniq".toList, uniq), ("remain".toList, remain)] = tail
  have hok : decimal respOk = ['2', '0', '0'] := by decide
  have hmore : decimal respOkPartialData = ['2', '0', '6'] := by decide
  have hfind : strstr (ascii ("\x7b\"status\":".toList ++ (decimal respOk ++ tail)))
      (ascii "\"status\":200".toList) = some 1 := by
    rw [hok, strstr, find?_range_eq_some]
    refine ⟨?_, by simp [ascii], ?_⟩
    · rw [decide_eq_true_eq]
      exact ⟨ascii tail, by simp [ascii]⟩
    · intro j hj
      obtain rfl : j = 0 := by omega
      simp [OccursAt, ascii]
  rw [patchStatus, hfind, Option.map_some, hok, hmore]
  simp [ascii]

theorem length_respFrame (uniq : ℤ) (p : Piece UInt8) : (respFrame uniq p).length =
      (ascii (compact (respFields respOk uniq p.remain))).length + (p.data.length + 1) := by
  have hdigits : (decimal (respStatus p.last)).length = (decimal respOk).length := by
    cases p.last <;> rfl
  simp [respFrame, compact_respFields, length_ascii, hdigits]

variable {mqSend : ℕ → ℕ → SendAnswer} {size : ℕ}

theorem sendFrames_step {data full metadata : Bytes}
    (hfull : metadataBytes J uniq data.length = full) (hdata : data ≠ [])
    (hroom : full.length + 1 < size) {k : ℕ}
    (hk : k = dataSendLen size (full.length + 1) data.length)
    (hmeta : (if data.drop k = [] then some full else patchStatus full) = some metadata)
    (hsend : ipcSendFrameWithRetry (mqSend n) = .ok) {frames : List Bytes}
    (hrest : sendFrames J mqSend size uniq (n + 1) (data.drop k) = (frames, some .ok)) :
    sendFrames J mqSend size uniq n data =
      ((metadata ++ 0 :: data.take k) :: frames, some .ok) := by
  subst hk hfull
  rw [sendFrames, dif_neg hdata, dif_neg (not_le.2 hroom)]
  simp only [hmeta, hsend, hrest]

/-- **The sender cuts the text**, if there is room for the first metadata. The induction is
on the data that remain: the later metadata are not longer than the first. -/
theorem sendFrames_cut (hJ : J.Compact) (hu : IsInt uniq)
    (hsend : ∀ n, ipcSendFrameWithRetry (mqSend n) = .ok) (n : ℕ) (data : Bytes)
    (hdata : data ≠ []) (hlen : data.length < 2 ^ 31)
    (hroom : (ascii (compact (respFields respOk uniq data.length))).length + 1 < size) :
    ∃ ps, Cut data ps ∧ (∀ p ∈ ps, (respFrame uniq p).length ≤ size) ∧
      sendFrames J mqSend size uniq n data = (ps.map (respFrame uniq), some .ok) := by
  induction hlength : data.length using Nat.strong_induction_on generalizing n data with
  | _ len ih =>
    subst hlength
    have hmeta := metadataBytes_eq hJ hu hlen
    obtain ⟨k, hk⟩ : ∃ k, k = dataSendLen size
      ((ascii (compact (respFields respOk uniq data.length))).length + 1) data.length := ⟨_, rfl⟩
    have hkpos : 0 < k := hk ▸ dataSendLen_pos hroom (length_pos_iff.2 hdata)
    have hfits : ∀ last d, d.length ≤ k →
        (respFrame uniq ⟨last, data.length, d⟩).length ≤ size := by
      intro last d hd
      have hkle := hk ▸ dataSendLen_le size _ data.length
      rw [length_respFrame]
      simp only
      omega
    by_cases hrest : data.drop k = []
    · -- the last frame
      have hdatak : data.length ≤ k := drop_eq_nil_iff.1 hrest
      have htake : data.take k = data := take_of_length_le hdatak
      have hnil : sendFrames J mqSend size uniq (n + 1) (data.drop k) = ([], some .ok) := by
        rw [sendFrames, dif_pos hrest]
      refine ⟨_, .last hdata, by simpa using hfits true data hdatak, ?_⟩
      rw [sendFrames_step hmeta hdata hroom hk (if_pos hrest) (hsend n) hnil, htake]
      rfl
    · have hshorter : (data.drop k).length < data.length := by
        have := length_pos_iff.2 hdata
        rw [length_drop]
        omega
      have hmono := length_respFields_mono respOk uniq hshorter.le
      obtain ⟨ps, hcut, hsize, hps⟩ := ih _ hshorter (n + 1) (data.drop k) hrest
        (hshorter.trans hlen) (by omega) rfl
      have hpatch := patchStatus_respFields uniq data.length
      refine ⟨_, hcut.take hkpos hdata, ?_, ?_⟩
      · intro p hp
        rcases mem_cons.1 hp with rfl | hp
        · exact hfits false _ (length_take_le _ _)
        · exact hsize p hp
      · rw [sendFrames_step hmeta hdata hroom hk ((if_neg hrest).trans hpatch) (hsend n) hps]
        rfl

end Sender

/-! ## The receiver joins -/

section Receiver

variable {G : GoJson} {uniq : ℤ} {p : Piece UInt8}

theorem parseIpcFrame_frame (hG : G.Compact) (hu : IsInt uniq) (hp : p.remain < 2 ^ 31) :
    parseIpcFrame G (respFrame uniq p) = .ok (⟨respStatus p.last, uniq, p.remain⟩, p.data) := by
  have hsmall : Small (respFields (respStatus p.last) uniq p.remain) :=
    small_respFields (by cases p.last <;> decide) hu (isInt_natCast hp)
  have hzero := zero_not_mem_compact hsmall
  set text := ascii (compact (respFields (respStatus p.last) uniq p.remain)) with htext
  have hsep : ipcGetMsgSeparatorIndex (respFrame uniq p) = some text.length := by
    have hnone : findIdx? (fun b : UInt8 => decide (b = 0)) text = none := by
      rw [findIdx?_eq_none_iff]
      intro b hb
      rw [decide_eq_false_iff_not]
      rintro rfl
      exact hzero hb
    rw [ipcGetMsgSeparatorIndex, respFrame, ← htext, findIdx?_append, hnone]
    simp [findIdx?_cons]
  obtain ⟨f, hf, hlookup⟩ := hG.unmarshal _ hsmall
  have hmeta : unmarshalMeta G text = .ok ⟨respStatus p.last, uniq, p.remain⟩ := by
    rw [unmarshalMeta, hf]
    simp only [hlookup]
    rfl
  rw [parseIpcFrame, hsep]
  simp only [respFrame, ← htext, take_left', hmeta]
  simp [Except.map]

theorem receiveFrames_step (hG : G.Compact) (hu : IsInt uniq) (hp : p.remain < 2 ^ 31)
    {previous : Option ℤ} (hprevious : ∀ r ∈ previous, p.remain ≤ r) (acc : Bytes)
    (more : List (Except IpcError Bytes)) :
    receiveFrames G uniq previous acc (.ok (respFrame uniq p) :: more) =
      if p.last then .ok (acc ++ p.data, respOk)
      else receiveFrames G uniq (some p.remain) (acc ++ p.data) more := by
  have hpass : previous.any (decide <| · < (p.remain : ℤ)) = false := by
    cases previous with
    | none => rfl
    | some r => simpa using hprevious r rfl
  simp only [receiveFrames, parseIpcFrame_frame hG hu hp, hpass]
  cases p.last <;> simp [respStatus, respOk, respOkPartialData]

/-- **The receiver puts the text together**, whatever it was cut into. The induction is on
the pieces; a remain value that is not larger than the one before passes. -/
theorem receive_cut (hG : G.Compact) (hu : IsInt uniq) {data : Bytes} {ps : List (Piece UInt8)}
    (hcut : Cut data ps) (hlen : data.length < 2 ^ 31) (previous : Option ℤ)
    (hprevious : ∀ r ∈ previous, (data.length : ℤ) ≤ r) (acc : Bytes) :
    receiveFrames G uniq previous acc (ps.map fun p => .ok (respFrame uniq p)) =
      .ok (acc ++ data, respOk) := by
  induction hcut generalizing previous acc with
  | @last data hdata =>
    rw [map_cons, receiveFrames_step hG hu hlen hprevious]
    rfl
  | @more data rest ps hdata hrest ih =>
    have hle : rest.length ≤ (data ++ rest).length := by simp
    have hnext : ∀ r ∈ some ((data ++ rest).length : ℤ), (rest.length : ℤ) ≤ r := by
      rintro r ⟨⟩
      exact Int.ofNat_le.2 hle
    rw [map_cons, receiveFrames_step hG hu hlen hprevious, if_neg Bool.false_ne_true,
      ih (hle.trans_lt hlen) _ hnext, append_assoc]

end Receiver

/-! ## Both together -/

/-- **The response round trip.** For every text and every size of the buffer, either the
sender finds no room before it has sent anything, or it sends the text in frames no longer
than the buffer, with decreasing remain values and the status 206 on all but the last,
and the receiver returns exactly the text with the status 200. -/
theorem response_round_trip {J : CJson Item} (hJ : J.Compact) {G : GoJson} (hG : G.Compact)
    (supportedResp : ℕ → Item → Option (Option Bytes)) (appViewError : Option (Option Bytes))
    (mqSend : ℕ → ℕ → SendAnswer) (hsend : ∀ n, ipcSendFrameWithRetry (mqSend n) = .ok)
    (msgBufSize : ℕ) (appviewDataReq : Bytes) (uniqReq : ℤ) (hu : IsInt uniqReq) (text : Bytes)
    (hresp : (ipcProcessRequestAndPrepareResponse J supportedResp appViewError appviewDataReq
      .allocationError).2 = some (some text))
    (hne : text ≠ []) (hnul : (0 : UInt8) ∉ text) (hlen : text.length < 2 ^ 31) :
    let r := ipcSendSuccessfulResponse J supportedResp appViewError mqSend msgBufSize
      appviewDataReq uniqReq
    (r = ([], some .unsufficentMsgbufError) ∧
      msgBufSize ≤ (respFrame uniqReq ⟨true, text.length, []⟩).length) ∨
    ∃ ps : List (Piece UInt8), r = (ps.map (respFrame uniqReq), some .ok) ∧
      (∀ f ∈ r.1, f.length ≤ msgBufSize) ∧ (ps.map Piece.remain).Pairwise (· > ·) ∧
      (∃ init p, ps = init ++ [p] ∧ respStatus p.last = respOk ∧
        ∀ q ∈ init, respStatus q.last = respOkPartialData) ∧
      receiveIpcResponse G uniqReq (r.1.map .ok) = .ok (text, respOk) := by
  have htext : cString text = text :=
    takeWhile_eq_self_iff.2 fun b hb => by
      rw [decide_eq_true_eq]
      rintro rfl
      exact hnul hb
  have hr : ipcSendSuccessfulResponse J supportedResp appViewError mqSend msgBufSize
      appviewDataReq uniqReq = sendFrames J mqSend msgBufSize uniqReq 0 text := by
    rw [ipcSendSuccessfulResponse]
    rcases hp : ipcProcessRequestAndPrepareResponse J supportedResp appViewError
      appviewDataReq .allocationError with ⟨res, wrap⟩
    rw [hp] at hresp
    obtain rfl : wrap = some (some text) := hresp
    simp [htext]
  simp only [hr]
  by_cases hroom : (ascii (compact (respFields respOk uniqReq text.length))).length + 1 < msgBufSize
  · right
    obtain ⟨ps, hcut, hsize, hps⟩ := sendFrames_cut hJ hu hsend 0 text hne hlen hroom
    obtain ⟨init, p, hsplit, hp, hinit⟩ := hcut.marks
    refine ⟨ps, hps, ?_, hcut.remains_decrease, ⟨init, p, hsplit, ?_, ?_⟩, ?_⟩
    · rw [hps]
      simpa using hsize
    · rw [hp]
      rfl
    · intro q hq
      rw [hinit q hq]
      rfl
    · have := receive_cut hG hu hcut hlen none (by simp) []
      rw [hps, receiveIpcResponse, map_map]
      exact this
  · left
    refine ⟨?_, by simpa [length_respFrame] using not_lt.1 hroom⟩
    rw [sendFrames, dif_neg hne, dif_pos]
    rw [metadataBytes_eq hJ hu hlen]
    exact not_lt.1 hroom

/-- A text of five bytes over a buffer that takes two of them at a time. -/
theorem response_round_trip_five : ∃ ps : List (Piece UInt8),
      ipcSendSuccessfulResponse plainCJson (fun _ _ => some (some [104, 101, 108, 108, 111])) none
        (fun _ _ => .sent) 37 (ascii "\x7b\"req\":1\x7d".toList) 7 =
          (ps.map (respFrame 7), some .ok) ∧
      receiveIpcResponse plainGoJson 7 ((ps.map (respFrame 7)).map .ok) =
        .ok ([104, 101, 108, 108, 111], respOk) := by
  have hresp : (ipcProcessRequestAndPrepareResponse plainCJson
      (fun _ _ => some (some [104, 101, 108, 108, 111])) none (ascii "\x7b\"req\":1\x7d".toList)
      .allocationError).2 = some (some [104, 101, 108, 108, 111]) := by
    decide +kernel
  rcases response_round_trip plainCJson_compact plainGoJson_compact
    (fun _ _ => some (some [104, 101, 108, 108, 111])) none
    (fun _ _ => .sent) (fun _ => rfl) 37 (ascii "\x7b\"req\":1\x7d".toList) 7 (by decide)
    [104, 101, 108, 108, 111] hresp (by decide) (by decide) (by decide) with h | h
  · exact absurd h.2 (by decide +kernel)
  · obtain ⟨ps, hps, -, -, -, hreceive⟩ := h
    rw [hps] at hreceive
    exact ⟨ps, hps, hreceive⟩

end AppView.Ipc

import AppView.CString
import AppView.Framework.HashTable
import AppView.Types
import AppView.StrSearch

/-!
# `doHttp1Header`: events of HTTP/1 headers

The reporting side of HTTP/1. A request is saved under the id of its connection, to be paired
with the response; the table is that of `httpmatch.c`.
-/

namespace AppView.Http

open AppView.Framework

/-! ## The table of pending requests -/

structure HttpMap where
  startTime : UInt64
  req : List UInt8
  deriving DecidableEq, Repr

def hashOfKey (key : UInt64) : Fin 257 := Fin.ofNat 257 key.toNat

abbrev HttpMatch := HashTable UInt64 (Fin 257) HttpMap

def httpReqSave (m : HttpMatch) (uid : UInt64) (req : HttpMap) : HttpMatch × Bool :=
  m.save hashOfKey uid req

/-- The request kept for a channel. -/
def httpReqGet (m : HttpMatch) (uid : UInt64) : Option HttpMap := m.get hashOfKey uid

def httpReqDelete (m : HttpMatch) (uid : UInt64) : HttpMatch := m.delete hashOfKey uid

/-! ## Fields -/

inductive FieldVal where
  | str (s : List UInt8)
  | num (n : ℤ)
  deriving DecidableEq, Repr

structure EventField where
  name : List UInt8
  value : FieldVal
  cardinality : ℕ
  eventUsage : Bool
  deriving DecidableEq, Repr

def bytes (s : String) : List UInt8 := s.toList.map fun c => UInt8.ofNat c.toNat

def hAttrib (name : String) (val : List UInt8) (verbosity : ℕ) : EventField :=
  ⟨bytes name, .str val, verbosity, true⟩

def hValue (name : String) (val : ℤ) (verbosity : ℕ) : EventField :=
  ⟨bytes name, .num val, verbosity, true⟩

def httpMaxFields : ℕ := 30

def eventOnlyAttr : ℕ := 10

def fieldArray (fields : List EventField) : List EventField := fields.take (httpMaxFields - 1)

structure HttpEvent where
  name : String
  uid : UInt64
  len : ℕ
  fields : List EventField
  deriving DecidableEq, Repr

structure ReportEnv where
  headerRes : List (Option (List UInt8 → Bool))
  pid : ℤ
  hostname : List UInt8
  procname : List UInt8
  /-- `getNetInternals` -/
  netFields : ProtocolInfo → List EventField
  freq : UInt64
  gptimerAvail : Bool
  /-- The string at a pointer that was not set. -/
  unset : List UInt8

/-! ## Header lines -/

def crlf : List UInt8 := [13, 10]

inductive Line where
  | attrib (name : String) (place verbosity : ℕ)
  | length (place : ℕ)
  | extract (start colon : ℕ)
  | other
  deriving DecidableEq, Repr

def httpLine (env : ReportEnv) (buf : List UInt8) (tok : ℕ × ℕ) : Line :=
  let thishdr := (buf.take tok.2).drop tok.1
  let colon := tok.1 + thishdr.idxOf 58
  if hasCase thishdr (bytes "Host:") then .attrib "http_host" (colon + 2) 1
  else if hasCase thishdr (bytes "User-Agent:") then .attrib "http_user_agent" (colon + 2) 5
  else if hasCase thishdr (bytes "X-Forwarded-For:") then .attrib "http_client_ip" (colon + 2) 5
  else if hasCase thishdr (bytes "Content-Length:") then .length (colon + 2)
  else if hasCase thishdr (bytes "x-appview:") then .attrib "x-appview" (colon + 2) 5
  else if env.headerRes.any (fun re => re.any (· thishdr)) ∧ 58 ∈ thishdr then
    -- the name is cut off at the colon, so no further expression finds a colon
    .extract tok.1 colon
  else .other

def cuts (env : ReportEnv) (buf : List UInt8) (toks : List (ℕ × ℕ)) : List ℕ :=
  toks.map Prod.snd ++ toks.filterMap fun tok =>
    match httpLine env buf tok with
    | .extract _ colon => some colon
    | _ => none

def lineField (fin : List UInt8) : Line → Option EventField
  | .attrib name place verbosity => some (hAttrib name (textAt fin place) verbosity)
  | .extract start colon => some ⟨textAt fin start, .str (textAt fin (colon + 2)), 5, true⟩
  | .length _ | .other => none

def clenAt (buf : List UInt8) (place : ℕ) : Option ℕ :=
  (strtoullBase0 (textAt buf place)).filter fun n => n ≠ 0 ∧ n ≠ 2 ^ 64 - 1

def headerClen (env : ReportEnv) (buf : List UInt8) (toks : List (ℕ × ℕ)) : Option ℕ :=
  toks.foldl (fun clen tok =>
    match httpLine env buf tok with
    | .length place => clenAt (cutAt buf [tok.2]) place
    | _ => clen) none

def longLong (n : ℕ) : ℤ := if n < 2 ^ 63 then n else n - 2 ^ 64

def headerCopy (hdr : List UInt8) : List UInt8 := strncpy (cStr hdr) hdr.length

def httpFields (env : ReportEnv) (isReq : Bool) (hdr : List UInt8) : List EventField :=
  let buf := headerCopy hdr
  match tokens crlf buf with
  | [] => []
  | first :: toks =>
    let fin := cutAt buf (cuts env buf toks ++ [first.2])
    toks.filterMap (fun tok => lineField fin (httpLine env buf tok)) ++
      ((headerClen env buf toks).map fun n =>
        hValue (if isReq then "http_request_content_length"
          else "http_response_content_length") (longLong n) eventOnlyAttr).toList

def httpFieldsInternal (env : ReportEnv) (p : ProtocolInfo) : List EventField :=
  [{ hValue "pid" env.pid 4 with eventUsage := false },
   { hAttrib "host" env.hostname 4 with eventUsage := false },
   { hAttrib "proc" env.procname 4 with eventUsage := false }] ++
    if p.sockType ≠ -1 then env.netFields p else []

/-! ## First lines -/

def firstLine (hdr : List UInt8) : Option (List UInt8) := (words crlf (headerCopy hdr)).head?

def afterSlash (word : List UInt8) : Option (List UInt8) :=
  match (word.dropWhile (· = 47)).dropWhile (· ≠ 47) with
  | [] | [_] => none
  | _ :: rest => some rest

def scheme (p : ProtocolInfo) : EventField :=
  hAttrib "http_scheme" (bytes (if p.data.ssl then "https" else "http")) 1

/-- The method and the target of a request line. -/
def requestTarget (line : List UInt8) : List EventField :=
  (((words [32] line)[0]?).map fun w => hAttrib "http_method" w 1).toList ++
    (((words [32] line)[1]?).map fun w => hAttrib "http_target" w 4).toList

def requestFlavor (line : List UInt8) : List EventField :=
  ((((words [32] line)[2]?).bind afterSlash).map fun w => hAttrib "http_flavor" w 1).toList

def httpStatusStr : List UInt8 := bytes "HTTP/1."

def gHttpStatus : Search := ⟨httpStatusStr, bmBcTable httpStatusStr⟩

def getHttpStatus (env : ReportEnv) (hdr : List UInt8) : ℤ × List UInt8 :=
  match searchExec gHttpStatus hdr hdr.length with
  | none => (-1, env.unset)
  | some ix =>
    if hdr.length < ix + httpStatusStr.length + 1 then (-1, env.unset)
    else
      (((strtoullBase0 (textAt hdr (ix + httpStatusStr.length + 1))).filter (· ≠ 0)).elim (-1)
          longLong,
        textAt hdr (ix + httpStatusStr.length + 6))

def getDurationNow (env : ReportEnv) (now start : UInt64) : UInt64 :=
  if env.freq = 0 then 0
  else if start < now then
    if env.gptimerAvail then (now - start) * 1000 / env.freq else now - start
  else (0xffffffffffffffff - start + now) * 1000 / env.freq

def statusFields (env : ReportEnv) (start : Option UInt64) (p : ProtocolInfo) : List EventField :=
  let flavor := (((firstLine p.data.hdr).bind fun line => (words [32] line)[0]?).bind
    afterSlash).map fun w => hAttrib "http_flavor" w 1
  let status := getHttpStatus env p.data.hdr
  let duration := (start.map fun start =>
    getDurationNow env p.data.startDuration start / 1000000).getD 0
  flavor.toList ++
    [hValue "http_status_code" status.1 1,
     hAttrib "http_status_text" (status.2.takeWhile (· ∉ crlf)) 1,
     hValue "http_server_duration" (longLong duration.toNat) eventOnlyAttr]

/-! ## The function -/

def httpReqEvent (env : ReportEnv) (line : List UInt8) (p : ProtocolInfo) : HttpEvent :=
  ⟨"http.req", p.data.id.uid, p.len,
    fieldArray (requestTarget line ++ requestFlavor line ++ [scheme p] ++
      httpFields env true p.data.hdr ++ httpFieldsInternal env p)⟩

def httpRespEvent (env : ReportEnv) (request : Option (HttpMap × List UInt8))
    (p : ProtocolInfo) : HttpEvent :=
  ⟨"http.resp", p.data.id.uid, p.len,
    fieldArray ((request.elim [] fun r => requestTarget r.2 ++ [scheme p]) ++
      statusFields env (request.map (·.1.startTime)) p ++
      (request.elim [] fun r => httpFields env true r.1.req) ++
      httpFields env false p.data.hdr ++ httpFieldsInternal env p)⟩

/-- A request is kept and reported; while one of its channel is kept, others are passed over. -/
def doRequest (env : ReportEnv) (m : HttpMatch) (p : ProtocolInfo) : HttpMatch × List HttpEvent :=
  match httpReqGet m p.data.id.uid with
  | some _ => (m, [])
  | none =>
    let saved := httpReqSave m p.data.id.uid ⟨p.data.startDuration, p.data.hdr⟩
    if saved.2 then
      (saved.1, ((firstLine p.data.hdr).map fun line => httpReqEvent env line p).toList)
    else (saved.1, [])

/-- A response is reported, with the request kept for its channel if there is one. -/
def doResponse (env : ReportEnv) (m : HttpMatch) (p : ProtocolInfo) : HttpMatch × List HttpEvent :=
  match httpReqGet m p.data.id.uid with
  | none => (m, [httpRespEvent env none p])
  | some map =>
    match firstLine map.req with
    | none => (m, [])
    | some line => (httpReqDelete m p.data.id.uid, [httpRespEvent env (some (map, line)) p])

/-- A header from the queue of events. -/
def doHttp1Header (env : ReportEnv) (m : HttpMatch) (p : ProtocolInfo) :
    HttpMatch × List HttpEvent :=
  if p.ptype = .evtHreq then doRequest env m p
  else if p.ptype = .evtHres then doResponse env m p
  else (m, [])

inductive Input where
  | header (p : ProtocolInfo)
  | close (uid : UInt64)

def report (env : ReportEnv) (m : HttpMatch) : Input → HttpMatch × List HttpEvent
  | .header p => doHttp1Header env m p
  | .close uid => (httpReqDelete m uid, [])

end AppView.Http

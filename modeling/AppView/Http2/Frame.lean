import AppView.CString
import AppView.Framework.IntObject
import AppView.Http2.Lshpack
import AppView.StrSearch

/-!
# `doHttp2Frame`: header frames of HTTP/2

A frame with a part of a header block (HEADERS, PUSH_PROMISE, CONTINUATION) is decoded on its
own, with the one HPACK decoder of the connection, and each header field updates the state of
its stream, where the event is built up.
-/

namespace AppView.Http2

open AppView.Framework

/-! ## What is known besides the frame -/

inductive Val where
  | str (s : Bytes)
  | num (n : ℕ)
  deriving DecidableEq, Repr

inductive Origin where
  | header
  | frame
  | connection
  | timing
  deriving DecidableEq, Repr

structure Entry where
  key : Bytes
  val : Val
  origin : Origin
  deriving DecidableEq, Repr

structure Filters where
  field : Bytes → Bytes → Bool
  name : Bytes → Bool
  headers : List (Option (Bytes → Bool))

structure Proto where
  frame : Bytes
  startDuration : ℕ
  isServer : Bool
  /-- `start_time` of an HTTP/1 request on the connection. -/
  http1Start : Option ℕ
  /-- The fields of the socket. -/
  socket : List (String × Val)
  /-- What the variable `duration` holds where nothing is assigned to it. -/
  unassigned : ℕ

/-! ## The state of a stream -/

inductive MsgType where
  | unset
  | request
  | response
  deriving DecidableEq, Repr

structure Stream where
  msgType : MsgType
  jsonData : Option (List Entry)
  lastRequestAt : ℕ
  lastStatus : ℤ
  lastHost : Bytes
  lastMethod : Bytes
  lastTarget : Bytes
  lastUserAgent : Bytes
  lastReqLen : ℤ
  lastRespLen : ℤ
  deriving DecidableEq, Repr

def Stream.new : Stream :=
  { msgType := .unset, jsonData := none, lastRequestAt := 0, lastStatus := 0,
    lastHost := List.replicate 256 0, lastMethod := List.replicate 8 0,
    lastTarget := List.replicate 2048 0, lastUserAgent := List.replicate 1024 0,
    lastReqLen := 0, lastRespLen := 0 }

structure Channel where
  decoder : Dec
  streams : ℕ → Option Stream

def Channel.new : Channel :=
  { decoder := Dec.init.setMaxCapacity 0x4000, streams := fun _ => none }

/-! ## Entries -/

def u32 (z : ℤ) : ℕ := (z % 2 ^ 32).toNat

def Stream.add (s : Stream) (e : Entry) : Stream :=
  { s with jsonData := s.jsonData.map (· ++ [e]) }

def addHttp2StrField (fl : Filters) (o : Origin) (s : Stream) (field : String) (value : Bytes) :
    Stream :=
  if fl.field (octets field) value then s.add ⟨octets field, .str value, o⟩ else s

def addHttp2NumField (fl : Filters) (o : Origin) (s : Stream) (field : String) (value : ℕ) :
    Stream :=
  if fl.field (octets field) ((decimal (cInt value)).map fun c => UInt8.ofNat c.toNat) then
    s.add ⟨octets field, .num value, o⟩
  else s

def statusTexts : List (ℤ × String) :=
  [(100, "Continue"), (101, "Switching Protocols"), (102, "Processing"), (200, "OK"),
   (201, "Created"), (202, "Accepted"), (203, "Non-authoritative Information"),
   (204, "No Content"), (205, "Reset Content"), (206, "Partial Content"),
   (207, "Multi-Status"), (208, "Already Reported"), (226, "IM Used"),
   (300, "Multiple Choices"), (301, "Moved Permanently"), (302, "Found"), (303, "See Other"),
   (304, "Not Modified"), (305, "Use Proxy"), (307, "Temporary Redirect"),
   (308, "Permanent Redirect"), (400, "Bad Request"), (401, "Unauthorized"),
   (402, "Payment Required"), (403, "Forbidden"), (404, "Not Found"),
   (405, "Method Not Allowed"), (406, "Not Acceptable"),
   (407, "Proxy Authentication Required"), (408, "Request Timeout"), (409, "Conflict"),
   (410, "Gone"), (411, "Length Required"), (412, "Precondition Failed"),
   (413, "Payload Too Large"), (414, "Request-URI Too Long"),
   (415, "Unsupported Media Type"), (416, "Requested Range Not Satisfiable"),
   (417, "Expectation Failed"), (418, "I'm a teapot"), (421, "Misdirected Request"),
   (422, "Unprocessable Entity"), (423, "Locked"), (424, "Failed Dependency"),
   (426, "Upgrade Required"), (428, "Precondition Required"), (429, "Too Many Requests"),
   (431, "Request Header Fields Too Large"), (444, "Connection Closed Without Response"),
   (451, "Unavailable For Legal Reasons"), (499, "Client Closed Request"),
   (500, "Internal Server Error"), (501, "Not Implemented"), (502, "Bad Gateway"),
   (503, "Service Unavailable"), (504, "Gateway Timeout"),
   (505, "HTTP Version Not Supported"), (506, "Variant Also Negotiates"),
   (507, "Insufficient Storage")]

def httpStatusCode2Text (code : ℤ) : String := (statusTexts.lookup code).getD "UNKNOWN"

def addHttp2Field (fl : Filters) (o : Origin) (s : Stream) (field : String) : Val → Stream
  | .str value => addHttp2StrField fl o s field value
  | .num value => addHttp2NumField fl o s field value

/-! ## The frame -/

structure Header where
  fLen : ℕ
  fType : ℕ
  fFlags : UInt8
  fStream : ℕ
  deriving DecidableEq, Repr

def Header.padded (h : Header) : Prop := h.fFlags &&& 0x08 ≠ 0

def Header.priority (h : Header) : Prop := h.fFlags &&& 0x20 ≠ 0

def Header.endHeaders (h : Header) : Prop := h.fFlags &&& 0x04 ≠ 0

instance (h : Header) : Decidable h.padded := inferInstanceAs (Decidable (_ ≠ _))

instance (h : Header) : Decidable h.priority := inferInstanceAs (Decidable (_ ≠ _))

instance (h : Header) : Decidable h.endHeaders := inferInstanceAs (Decidable (_ ≠ _))

def byteAt (frame : Bytes) (i : ℕ) : ℕ := (frame.getD i 0).toNat

def streamAt (frame : Bytes) (i : ℕ) : ℕ :=
  (byteAt frame i % 128) * 2 ^ 24 + byteAt frame (i + 1) * 2 ^ 16 +
    byteAt frame (i + 2) * 2 ^ 8 + byteAt frame (i + 3)

/-- No result for a frame whose length is not that of its data. -/
def frameHeader (frame : Bytes) : Option Header :=
  if frame.length < 9 then none
  else
    let fLen := byteAt frame 0 * 2 ^ 16 + byteAt frame 1 * 2 ^ 8 + byteAt frame 2
    let fType := byteAt frame 3
    let fFlags := frame.getD 4 0
    if frame.length ≠ 9 + fLen then none
    else
      let fStream :=
        if fType = 0x05 then streamAt frame (if fFlags &&& 0x08 ≠ 0 then 10 else 9)
        else streamAt frame 5
      some ⟨fLen, fType, fFlags, fStream⟩

/-- The part of the block in a frame: without padding, priority and promised stream. -/
def headerData (h : Header) (frame : Bytes) : Bytes :=
  let decPos := 9 + (if h.padded then 1 else 0) + (if h.priority then 5 else 0) +
    (if h.fType = 0x05 then 4 else 0)
  let decEnd := 9 + h.fLen - (if h.padded then byteAt frame 9 else 0)
  (frame.take decEnd).drop decPos

/-! ## A header field -/

def addOtherField (fl : Filters) (s : Stream) (f : Field) : Stream :=
  let line := cStr (f.name ++ octets ": " ++ f.value)
  if fl.headers.any (fun re => re.any (· line)) then
    s.add ⟨cStr f.name, .str (cStr f.value), .header⟩
  else s

def Stream.ofType (s : Stream) (msgType : MsgType) : Stream := { s with msgType }

def Stream.keepMethod (s : Stream) (val : Bytes) (startDuration : ℕ) : Stream :=
  { s with lastMethod := strncpy val 8, lastRequestAt := startDuration }

def Stream.keepStatus (s : Stream) (status : ℤ) : Stream := { s with lastStatus := status }

def Stream.keepHost (s : Stream) (val : Bytes) : Stream := { s with lastHost := strncpy val 256 }

def Stream.keepTarget (s : Stream) (val : Bytes) : Stream :=
  { s with lastTarget := strncpy val 2048 }

def Stream.keepUserAgent (s : Stream) (val : Bytes) : Stream :=
  { s with lastUserAgent := strncpy val 1024 }

def Stream.keepReqLen (s : Stream) (len : ℤ) : Stream := { s with lastReqLen := len }

def Stream.keepRespLen (s : Stream) (len : ℤ) : Stream := { s with lastRespLen := len }

def addFrameType (fl : Filters) (h : Header) (s : Stream) : Stream :=
  if h.fType = 0x01 then addHttp2StrField fl .frame s "http_frame" (octets "HEADERS")
  else if h.fType = 0x05 then addHttp2StrField fl .frame s "http_frame" (octets "PUSH_PROMISE")
  else s

def doMethod (fl : Filters) (h : Header) (startDuration : ℕ) (s : Stream) (val : Bytes) : Stream :=
  let s := addHttp2NumField fl .frame (s.ofType .request) "http_stream" h.fStream
  let s := addHttp2StrField fl .header s "http_method" val
  addFrameType fl h (s.keepMethod val startDuration)

def doStatus (fl : Filters) (h : Header) (s : Stream) (val : Bytes) : Stream :=
  let s := addHttp2NumField fl .frame (s.ofType .response) "http_stream" h.fStream
  let s := addHttp2NumField fl .header (s.keepStatus (atoi val)) "http_status_code"
    (u32 (atoi val))
  addHttp2StrField fl .header s "http_status_text" (octets (httpStatusCode2Text (atoi val)))

def doContentLength (fl : Filters) (s : Stream) (val : Bytes) : Stream :=
  match s.msgType with
  | .request =>
    addHttp2NumField fl .header (s.keepReqLen (atoi val)) "http_request_content_length"
      (u32 (atoi val))
  | .response =>
    addHttp2NumField fl .header (s.keepRespLen (atoi val)) "http_response_content_length"
      (u32 (atoi val))
  | .unset => s

def doField (fl : Filters) (h : Header) (startDuration : ℕ) (s : Stream) (f : Field) : Stream :=
  let val := cStr f.value
  let named := fun name => sameCase (octets name) (cStr f.name)
  if named ":method" then doMethod fl h startDuration s val
  else if named ":status" then doStatus fl h s val
  else if named ":authority" then
    (addHttp2StrField fl .header s "http_host" val).keepHost val
  else if named ":path" then (addHttp2StrField fl .header s "http_target" val).keepTarget val
  else if named ":scheme" then addHttp2StrField fl .header s "http_scheme" val
  else if named "user-agent" then
    (addHttp2StrField fl .header s "http_user_agent" val).keepUserAgent val
  else if named "x-appview" then addHttp2StrField fl .header s "x-appview" val
  else if named "x-forwarded-for" then addHttp2StrField fl .header s "http_client_ip" val
  else if named "content-length" then doContentLength fl s val
  else addOtherField fl s f

/-! ## The end of the headers -/

structure Event where
  name : String
  value : ℕ
  data : List Entry
  deriving DecidableEq, Repr

def millis (start request : ℕ) : ℕ := (start + 2 ^ 64 - request) % 2 ^ 64 / 1000000 % 2 ^ 32

def Stream.duration (p : Proto) (s : Stream) : ℕ :=
  if s.lastRequestAt ≠ 0 then millis p.startDuration s.lastRequestAt
  else
    match p.http1Start with
    | some start => if start ≠ 0 then millis p.startDuration start else p.unassigned
    | none => p.unassigned

def addKept (fl : Filters) (s : Stream) (field : String) (memory : Bytes) : Stream :=
  if cStr memory = [] then s else addHttp2StrField fl .header s field (cStr memory)

def addRequest (fl : Filters) (s : Stream) : Stream :=
  -- the buffers are those of `s` throughout: only entries are added
  let withHost := addKept fl s "http_host"
    (s.lastHost ++ s.lastMethod ++ s.lastTarget ++ s.lastUserAgent)
  let withMethod := addKept fl withHost "http_method"
    (s.lastMethod ++ s.lastTarget ++ s.lastUserAgent)
  let withTarget := addKept fl withMethod "http_target" (s.lastTarget ++ s.lastUserAgent)
  addKept fl withTarget "http_user_agent" s.lastUserAgent

def sendHttp (fl : Filters) (p : Proto) (name : String) (s : Stream) : Option Event :=
  if fl.name (octets name) then s.jsonData.map fun data => ⟨name, p.frame.length, data⟩ else none

def endHeaders (fl : Filters) (p : Proto) (s : Stream) : Stream × Option Event :=
  let isResponse : Bool := s.msgType = .response
  let isServer := p.isServer == isResponse
  let s := p.socket.foldl (fun s e => addHttp2Field fl .connection s e.1 e.2) s
  let event :=
    match s.msgType with
    | .request => sendHttp fl p "http.req" s
    | .response =>
      let s := addHttp2NumField fl .timing s
        (if isServer then "http_server_duration" else "http_client_duration") (s.duration p)
      sendHttp fl p "http.resp" (addRequest fl s)
    | .unset => none
  ({ s with msgType := .unset, jsonData := none }, event)

/-! ## The function -/

def decodeBlock (huff : Bytes → Option Bytes) (d : Dec) (s : Bytes) : Dec × List Field :=
  if s = [] then (d, [])
  else
    match _h : decode huff d s with
    | (d', none) => (d', [])
    | (d', some (f, rest)) =>
      let r := decodeBlock huff d' rest
      (r.1, f :: r.2)
termination_by s.length
decreasing_by exact decode_lt _h

def Header.hasBlock (h : Header) : Prop := h.fType = 0x01 ∨ h.fType = 0x05 ∨ h.fType = 0x09

instance (h : Header) : Decidable h.hasBlock := inferInstanceAs (Decidable (_ ∨ _))

def Stream.opened (s : Stream) : Stream :=
  { s with
    jsonData := some (s.jsonData.getD [⟨octets "http_flavor", .str (octets "2.0"), .frame⟩]) }

/-- The channel afterwards, the fields that were decoded, and the event if the headers end. -/
def doHttp2Frame (huff : Bytes → Option Bytes) (fl : Filters) (channel : Option Channel)
    (p : Proto) : Option Channel × List Field × Option Event :=
  match frameHeader p.frame with
  | none => (channel, [], none)
  | some h =>
    if h.hasBlock then
      let ch := channel.getD Channel.new
      let s := ((ch.streams h.fStream).getD Stream.new).opened
      let r := decodeBlock huff ch.decoder (headerData h p.frame)
      let s := r.2.foldl (doField fl h p.startDuration) s
      let out := if h.endHeaders then endHeaders fl p s else (s, none)
      (some ⟨r.1, Function.update ch.streams h.fStream (some out.1)⟩, r.2, out.2)
    else (channel, [], none)

end AppView.Http2

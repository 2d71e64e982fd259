import AppView.Framework.Runs
import AppView.Http2.Block

/-!
# Header blocks over several frames

A header block may be cut at any byte, into a HEADERS frame and CONTINUATION frames. Each frame
is decoded on its own, so a field that is cut is lost, or decoded to something else.
-/

namespace AppView.Http2

open AppView.Framework List

variable {huff : Bytes → Option Bytes} {fl : Filters}

/-! ## The part of a stream that header fields make -/

def headerEntries (es : List Entry) : List Entry := es.filter (·.origin = .header)

/-- What of a stream depends on header fields alone. -/
def Stream.view (s : Stream) : Stream :=
  { s with lastRequestAt := 0, jsonData := s.jsonData.map headerEntries }

theorem view_add_header (s : Stream) (k : Bytes) (v : Val) :
    (s.add ⟨k, v, .header⟩).view = s.view.add ⟨k, v, .header⟩ := by
  cases h : s.jsonData <;> simp [Stream.view, Stream.add, headerEntries, h]

theorem view_add_other (s : Stream) {e : Entry} (he : e.origin ≠ .header) :
    (s.add e).view = s.view := by
  cases h : s.jsonData <;> simp [Stream.view, Stream.add, headerEntries, h, he]

@[simp] theorem view_view (s : Stream) : s.view.view = s.view := by
  cases h : s.jsonData <;> simp [Stream.view, headerEntries, h]

@[simp] theorem view_strField (s : Stream) (k : String) (v : Bytes) :
    (addHttp2StrField fl .header s k v).view = addHttp2StrField fl .header s.view k v := by
  unfold addHttp2StrField
  split_ifs
  · exact view_add_header s _ _
  · rfl

@[simp] theorem view_numField (s : Stream) (k : String) (v : ℕ) :
    (addHttp2NumField fl .header s k v).view = addHttp2NumField fl .header s.view k v := by
  unfold addHttp2NumField
  split_ifs
  · exact view_add_header s _ _
  · rfl

variable {o : Origin} {channel : Option Channel} {fStream : ℕ}

theorem view_strField_other (ho : o ≠ .header) (s : Stream) (k : String) (v : Bytes) :
    (addHttp2StrField fl o s k v).view = s.view := by
  unfold addHttp2StrField
  split_ifs
  · exact view_add_other s ho
  · rfl

theorem view_numField_other (ho : o ≠ .header) (s : Stream) (k : String) (v : ℕ) :
    (addHttp2NumField fl o s k v).view = s.view := by
  unfold addHttp2NumField
  split_ifs
  · exact view_add_other s ho
  · rfl

section Kept

variable (s : Stream) (val : Bytes) (z : ℤ)

@[simp] theorem view_ofType (m : MsgType) : (s.ofType m).view = s.view.ofType m := rfl

@[simp] theorem view_keepMethod (t : ℕ) : (s.keepMethod val t).view = s.view.keepMethod val 0 := rfl

@[simp] theorem view_keepStatus : (s.keepStatus z).view = s.view.keepStatus z := rfl

@[simp] theorem view_keepHost : (s.keepHost val).view = s.view.keepHost val := rfl

@[simp] theorem view_keepTarget : (s.keepTarget val).view = s.view.keepTarget val := rfl

@[simp] theorem view_keepUserAgent : (s.keepUserAgent val).view = s.view.keepUserAgent val := rfl

@[simp] theorem view_keepReqLen : (s.keepReqLen z).view = s.view.keepReqLen z := rfl

@[simp] theorem view_keepRespLen : (s.keepRespLen z).view = s.view.keepRespLen z := rfl

end Kept

@[simp] theorem view_addOtherField (s : Stream) (f : Field) :
    (addOtherField fl s f).view = addOtherField fl s.view f := by
  unfold addOtherField
  dsimp only
  split_ifs
  · exact view_add_header s _ _
  · rfl

variable (p : Proto) (h : Header) (start : ℕ)

@[simp] theorem view_addFrameType (s : Stream) : (addFrameType fl h s).view = s.view := by
  unfold addFrameType
  split_ifs
  · exact view_strField_other (by decide) _ _ _
  · exact view_strField_other (by decide) _ _ _
  · rfl

theorem view_doMethod (s : Stream) (val : Bytes) : (doMethod fl h start s val).view =
      (addHttp2StrField fl .header (s.view.ofType .request) "http_method" val).keepMethod
        val 0 := by
  simp only [doMethod, view_addFrameType, view_keepMethod, view_strField]
  rw [view_numField_other (by decide), view_ofType]

theorem view_doStatus (s : Stream) (val : Bytes) : (doStatus fl h s val).view =
      addHttp2StrField fl .header (addHttp2NumField fl .header
        ((s.view.ofType .response).keepStatus (atoi val)) "http_status_code" (u32 (atoi val)))
        "http_status_text" (octets (httpStatusCode2Text (atoi val))) := by
  simp only [doStatus, view_strField, view_numField, view_keepStatus]
  rw [view_numField_other (by decide), view_ofType]

@[simp] theorem view_doContentLength (s : Stream) (val : Bytes) :
    (doContentLength fl s val).view = doContentLength fl s.view val := by
  have hm : s.view.msgType = s.msgType := rfl
  unfold doContentLength
  rw [hm]
  cases s.msgType with
  | request => simp
  | response => simp
  | unset => rfl

def viewField (fl : Filters) (s : Stream) (f : Field) : Stream :=
  (doField fl ⟨0, 0x09, 0, 0⟩ 0 s f).view

/-- **One header field**: what becomes of the view depends on the view alone. -/
theorem view_doField (s : Stream) (f : Field) :
    (doField fl h start s f).view = viewField fl s.view f := by
  unfold viewField doField
  -- the name decides alike on both sides, so the view goes into the branches
  simp [apply_ite Stream.view, view_doMethod, view_doStatus]

theorem view_fields (s : Stream) (fs : List Field) :
    (fs.foldl (doField fl h start) s).view = fs.foldl (viewField fl) s.view :=
  (foldl_hom Stream.view fun s f => (view_doField h start s f).symm).symm

/-! ## The event -/

def Event.reported (e : Event) : String × List Entry := (e.name, headerEntries e.data)

def viewEvent (fl : Filters) (s : Stream) : Option (String × List Entry) :=
  match s.msgType with
  | .request => if fl.name (octets "http.req") then s.jsonData.map ("http.req", ·) else none
  | .response =>
    if fl.name (octets "http.resp") then (addRequest fl s).jsonData.map ("http.resp", ·)
    else none
  | .unset => none

theorem reported_sendHttp (name : String) (s : Stream) : (sendHttp fl p name s).map Event.reported =
      if fl.name (octets name) then s.view.jsonData.map (name, ·) else none := by
  unfold sendHttp
  split_ifs
  · cases h : s.jsonData <;> simp [Stream.view, Event.reported, h]
  · rfl

theorem view_addKept (s : Stream) (k : String) (m : Bytes) :
    (addKept fl s k m).view = addKept fl s.view k m := by
  unfold addKept
  split_ifs
  · rfl
  · exact view_strField s _ _

theorem view_addRequest (s : Stream) : (addRequest fl s).view = addRequest fl s.view := by
  simp only [addRequest, view_addKept]
  rfl

theorem view_socket (fl : Filters) (s : Stream) (es : List (String × Val)) :
    (es.foldl (fun s e => addHttp2Field fl .connection s e.1 e.2) s).view = s.view := by
  induction es generalizing s with
  | nil => rfl
  | cons e es ih =>
    rw [foldl_cons, ih]
    obtain ⟨k, v | v⟩ := e
    · exact view_strField_other (by decide) s k v
    · exact view_numField_other (by decide) s k v

/-- **The event**: its header fields depend on the view alone. -/
theorem reported_endHeaders (s : Stream) :
    (endHeaders fl p s).2.map Event.reported = viewEvent fl s.view := by
  have hview := view_socket fl s p.socket
  unfold endHeaders
  dsimp only
  generalize p.socket.foldl (fun s e => addHttp2Field fl .connection s e.1 e.2) s = s' at *
  rw [← hview]
  have hm : s'.view.msgType = s'.msgType := rfl
  unfold viewEvent
  rw [hm]
  cases s'.msgType with
  | request => exact reported_sendHttp p _ s'
  | response =>
    rw [reported_sendHttp, view_addRequest, view_numField_other (by decide)]
  | unset => rfl

/-! ## The object of the event stays -/

def Stream.isOpen (s : Stream) : Bool := s.jsonData.isSome

@[simp] theorem isOpen_opened (s : Stream) : s.opened.isOpen = true := rfl

theorem opened_of_isOpen {s : Stream} (h : s.isOpen = true) : s.opened = s := by
  obtain ⟨es, hes⟩ := Option.isSome_iff_exists.1 h
  cases s
  cases hes
  rfl

@[simp] theorem isOpen_strField (o : Origin) (s : Stream) (k : String) (v : Bytes) :
    (addHttp2StrField fl o s k v).isOpen = s.isOpen := by
  unfold addHttp2StrField
  split_ifs <;> simp [Stream.isOpen, Stream.add]

@[simp] theorem isOpen_numField (o : Origin) (s : Stream) (k : String) (v : ℕ) :
    (addHttp2NumField fl o s k v).isOpen = s.isOpen := by
  unfold addHttp2NumField
  split_ifs <;> simp [Stream.isOpen, Stream.add]

theorem isOpen_addOtherField (s : Stream) (f : Field) :
    (addOtherField fl s f).isOpen = s.isOpen := by
  unfold addOtherField
  dsimp only
  split_ifs <;> simp [Stream.isOpen, Stream.add]

theorem isOpen_doMethod (s : Stream) (val : Bytes) :
    (doMethod fl h start s val).isOpen = s.isOpen := by
  have hkeep : ∀ x : Stream, (x.keepMethod val start).isOpen = x.isOpen := fun _ => rfl
  have htype : (s.ofType .request).isOpen = s.isOpen := rfl
  simp [doMethod, addFrameType, apply_ite Stream.isOpen, hkeep, htype]

theorem isOpen_doStatus (s : Stream) (val : Bytes) : (doStatus fl h s val).isOpen = s.isOpen := by
  have hkeep : ∀ x : Stream, (x.keepStatus (atoi val)).isOpen = x.isOpen := fun _ => rfl
  have htype : (s.ofType .response).isOpen = s.isOpen := rfl
  simp [doStatus, hkeep, htype]

theorem isOpen_doContentLength (s : Stream) (val : Bytes) :
    (doContentLength fl s val).isOpen = s.isOpen := by
  unfold doContentLength
  cases s.msgType with
  | request => exact isOpen_numField _ (s.keepReqLen (atoi val)) _ _
  | response => exact isOpen_numField _ (s.keepRespLen (atoi val)) _ _
  | unset => rfl

theorem isOpen_doField (s : Stream) (f : Field) : (doField fl h start s f).isOpen = s.isOpen := by
  have hhost : ∀ (x : Stream) v, (x.keepHost v).isOpen = x.isOpen := fun _ _ => rfl
  have htarget : ∀ (x : Stream) v, (x.keepTarget v).isOpen = x.isOpen := fun _ _ => rfl
  have hagent : ∀ (x : Stream) v, (x.keepUserAgent v).isOpen = x.isOpen := fun _ _ => rfl
  simp [doField, apply_ite Stream.isOpen, isOpen_doMethod, isOpen_doStatus, isOpen_doContentLength,
    isOpen_addOtherField, hhost, htarget, hagent]

theorem isOpen_fields (s : Stream) (fs : List Field) :
    (fs.foldl (doField fl h start) s).isOpen = s.isOpen := by
  induction fs generalizing s with
  | nil => rfl
  | cons f fs ih => rw [foldl_cons, ih, isOpen_doField]

/-! ## Frames of one stream -/

def streamOf (channel : Option Channel) (fStream : ℕ) : Stream :=
  (((channel.getD Channel.new).streams fStream).getD Stream.new).opened

/-- A frame with a part of a header block; `last` is whether the block ends with it. -/
def Carries (fStream : ℕ) (last : Bool) (part frame : Bytes) : Prop :=
  ∃ h, frameHeader frame = some h ∧ h.hasBlock ∧ h.fStream = fStream ∧
    (h.endHeaders ↔ last = true) ∧ headerData h frame = part

def InFrames (fStream : ℕ) : List Bytes → List Bytes → Prop
  | [], frames => frames = []
  | part :: rest, frames => ∃ frame more, frames = frame :: more ∧
      Carries fStream (decide (rest = [])) part frame ∧ InFrames fStream rest more

theorem doHttp2Frame_of_reads (fl : Filters) {p : Proto} {last : Bool} {part : Bytes}
    {fs : List Field} {d' : Dec} (hframe : Carries fStream last part p.frame)
    (hread : ReadsTo huff (channel.getD Channel.new).decoder part fs d' []) :
    ∃ h : Header, (h.endHeaders ↔ last = true) ∧ doHttp2Frame huff fl channel p =
        let s := fs.foldl (doField fl h p.startDuration) (streamOf channel fStream)
        let out := if h.endHeaders then endHeaders fl p s else (s, none)
        (some ⟨d', Function.update (channel.getD Channel.new).streams fStream (some out.1)⟩,
          fs, out.2) := by
  obtain ⟨h, hhead, hblock, rfl, hend, hdata⟩ := hframe
  refine ⟨h, hend, ?_⟩
  simp only [doHttp2Frame, hhead, if_pos hblock, hdata, hread.decodeBlock_eq]
  rfl

/-! ## HEADERS and CONTINUATION -/

/-- What a HEADERS frame has besides its part of the block: the flag END_STREAM, padding and
the priority of the stream. -/
structure Extra where
  endStream : Bool
  padding : Option Bytes
  priority : Option Bytes
  padding_lt : ∀ b ∈ padding, b.length < 256
  priority_length : ∀ b ∈ priority, b.length = 5

def Extra.none : Extra := ⟨false, .none, .none, by simp, by simp⟩

def flagByte (endStream endHeaders padded priority : Bool) : UInt8 :=
  (if endStream then 0x01 else 0) ||| (if endHeaders then 0x04 else 0) |||
    (if padded then 0x08 else 0) ||| (if priority then 0x20 else 0)

def Extra.flags (x : Extra) (last : Bool) : UInt8 :=
  flagByte x.endStream last x.padding.isSome x.priority.isSome

def Extra.front (x : Extra) : Bytes :=
  x.padding.elim [] (fun b => [UInt8.ofNat b.length]) ++ x.priority.getD []

def headersFrame (x : Extra) (last : Bool) (fStream : ℕ) (part : Bytes) : Bytes :=
  mkFrame 1 (x.flags last) fStream (x.front ++ part ++ x.padding.getD [])

def continuations (fStream : ℕ) : List Bytes → List Bytes
  | [] => []
  | part :: rest =>
    mkFrame 9 (if rest = [] then 4 else 0) fStream part :: continuations fStream rest

/-- The frames of a block in parts: a HEADERS frame, then CONTINUATION frames. -/
def blockFrames (x : Extra) (fStream : ℕ) : List Bytes → List Bytes
  | [] => []
  | part :: rest => headersFrame x (decide (rest = [])) fStream part :: continuations fStream rest

theorem flagByte_endHeaders (e l d q : Bool) : flagByte e l d q &&& 0x04 ≠ 0 ↔ l = true := by
  revert e l d q
  decide

theorem flagByte_padded (e l d q : Bool) : flagByte e l d q &&& 0x08 ≠ 0 ↔ d = true := by
  revert e l d q
  decide

theorem flagByte_priority (e l d q : Bool) : flagByte e l d q &&& 0x20 ≠ 0 ↔ q = true := by
  revert e l d q
  decide

theorem drop_mkFrame (fType fFlags : UInt8) (fStream n : ℕ) (payload : Bytes) :
    (mkFrame fType fFlags fStream payload).drop (9 + n) = payload.drop n := by
  rw [← drop_drop]
  rfl

theorem length_front (x : Extra) : x.front.length =
    (if x.padding.isSome then 1 else 0) + (if x.priority.isSome then 5 else 0) := by
  obtain ⟨e, padding, priority, -, hprio⟩ := x
  cases padding <;> cases priority <;> simp_all [Extra.front]

/-- The padding is taken off at the end as the byte before the block says. -/
theorem headerData_headersFrame (x : Extra) (last : Bool) (part : Bytes) :
    headerData ⟨(x.front ++ part ++ x.padding.getD []).length, 1, x.flags last, fStream⟩
      (headersFrame x last fStream part) = part := by
  have hpadded : (⟨(x.front ++ part ++ x.padding.getD []).length, 1, x.flags last, fStream⟩ :
      Header).padded ↔ x.padding.isSome = true := flagByte_padded ..
  have hpriority : (⟨(x.front ++ part ++ x.padding.getD []).length, 1, x.flags last, fStream⟩ :
      Header).priority ↔ x.priority.isSome = true := flagByte_priority ..
  have hpad : (if x.padding.isSome = true then byteAt (headersFrame x last fStream part) 9 else 0) =
      (x.padding.getD []).length := by
    cases hp : x.padding with
    | none => rfl
    | some b =>
      have hlt := x.padding_lt b hp
      simp [headersFrame, Extra.front, hp, mkFrame, byteAt, Nat.mod_eq_of_lt hlt]
  have hpos : 9 + (if x.padding.isSome = true then 1 else 0) +
      (if x.priority.isSome = true then 5 else 0) = 9 + x.front.length := by
    rw [length_front, Nat.add_assoc]
  simp only [headerData, hpadded, hpriority, hpad, hpos, show ¬ (1 = 0x05) by decide, if_false,
    Nat.add_zero]
  rw [drop_take, headersFrame, drop_mkFrame, append_assoc, drop_left]
  have hlen : 9 + (x.front ++ (part ++ x.padding.getD [])).length - (x.padding.getD []).length -
      (9 + x.front.length) = part.length := by
    simp only [length_append]
    omega
  rw [hlen, take_left]

theorem carries_headersFrame (hstream : fStream < 2 ^ 31) {x : Extra} {last : Bool} {part : Bytes}
    (hlen : (headersFrame x last fStream part).length < 9 + 2 ^ 24) :
    Carries fStream last part (headersFrame x last fStream part) := by
  rw [headersFrame, length_mkFrame] at hlen
  exact ⟨_, frameHeader_mkFrame (by omega) hstream (by decide), .inl rfl, rfl,
    flagByte_endHeaders .., headerData_headersFrame x last part⟩

theorem inFrames_continuations (hstream : fStream < 2 ^ 31) {parts : List Bytes}
    (hlen : ∀ frame ∈ continuations fStream parts, frame.length < 9 + 2 ^ 24) :
    InFrames fStream parts (continuations fStream parts) := by
  induction parts with
  | nil => rfl
  | cons part rest ih =>
    obtain ⟨hfirst, hmore⟩ := forall_mem_cons.1 hlen
    refine ⟨_, _, rfl, ?_, ih hmore⟩
    rw [length_mkFrame] at hfirst
    refine ⟨_, frameHeader_mkFrame (by omega) hstream (by decide), .inr (.inr rfl), rfl, ?_,
      headerData_mkFrame (by decide) ?_ ?_⟩
    · show (if rest = [] then (4 : UInt8) else 0) &&& 0x04 ≠ 0 ↔ _
      split_ifs with hrest <;> simp [hrest]
    · split_ifs <;> decide
    · split_ifs <;> decide

theorem inFrames_blockFrames (hstream : fStream < 2 ^ 31) {x : Extra} {parts : List Bytes}
    (hlen : ∀ frame ∈ blockFrames x fStream parts, frame.length < 9 + 2 ^ 24) :
    InFrames fStream parts (blockFrames x fStream parts) := by
  cases parts with
  | nil => rfl
  | cons part rest =>
    obtain ⟨hfirst, hmore⟩ := forall_mem_cons.1 hlen
    exact ⟨_, _, rfl, carries_headersFrame hstream hfirst, inFrames_continuations hstream hmore⟩

/-- Each part ends where a representation of the whole block ends. -/
def CutAtEnds (huff : Bytes → Option Bytes) : Dec → List Bytes → Prop
  | _, [] => True
  | d, part :: rest =>
    ∃ fs d', ReadsTo huff d (part ++ rest.flatten) fs d' rest.flatten ∧ CutAtEnds huff d' rest

def frameStep (huff : Bytes → Option Bytes) (fl : Filters) (channel : Option Channel)
    (p : Proto) : Option Channel × Option Event :=
  ((doHttp2Frame huff fl channel p).1, (doHttp2Frame huff fl channel p).2.2)

def reportedBy (huff : Bytes → Option Bytes) (fl : Filters) (channel : Option Channel)
    (ps : List Proto) : List (String × List Entry) :=
  (run (frameStep huff fl) channel ps).2.filterMap (·.map Event.reported)

theorem run_parts {parts : List Bytes} (hne : parts ≠ []) {ps : List Proto}
    (hframes : InFrames fStream parts (ps.map Proto.frame))
    (hcut : CutAtEnds huff (channel.getD Channel.new).decoder parts) :
    ∃ fs d', ReadsTo huff (channel.getD Channel.new).decoder parts.flatten fs d' [] ∧
      reportedBy huff fl channel ps =
        (viewEvent fl (fs.foldl (viewField fl) (streamOf channel fStream).view)).toList := by
  induction parts generalizing channel ps with
  | nil => exact absurd rfl hne
  | cons part rest ih =>
    obtain ⟨fs, d₁, hread, hcuts⟩ := hcut
    obtain ⟨frame, more, hps, hframe, hmore⟩ := hframes
    cases ps with
    | nil => cases hps
    | cons p ps =>
      obtain ⟨rfl, rfl⟩ := List.cons.inj hps
      by_cases hrest : rest = []
      · -- the last frame sends the event
        subst hrest
        obtain rfl : ps = [] := map_eq_nil_iff.1 hmore
        obtain ⟨h, hend, hdo⟩ := doHttp2Frame_of_reads fl hframe hread.cut
        have hsend : h.endHeaders := hend.2 rfl
        refine ⟨fs, d₁, by simpa using hread, ?_⟩
        simp only [reportedBy, run_cons, run_nil, frameStep, hdo, hsend, if_true]
        rw [← view_fields h p.startDuration, ← reported_endHeaders p]
        cases (endHeaders fl p _).2 <;> rfl
      · obtain ⟨h, hend, hdo⟩ := doHttp2Frame_of_reads fl hframe hread.cut
        have hsend : ¬ h.endHeaders := fun he => hrest (of_decide_eq_true (hend.1 he))
        simp only [hsend, if_false] at hdo
        have hcuts' : CutAtEnds huff
            ((doHttp2Frame huff fl channel p).1.getD Channel.new).decoder rest := by
          rw [hdo]
          exact hcuts
        obtain ⟨gs, d', hgs, hrep⟩ := ih hrest hmore hcuts'
        have hskip : reportedBy huff fl channel (p :: ps) =
            reportedBy huff fl (doHttp2Frame huff fl channel p).1 ps := by
          simp only [reportedBy, run_cons, frameStep, hdo]
          rfl
        -- the next frame finds the stream as this one left it
        have hfound : streamOf (doHttp2Frame huff fl channel p).1 fStream =
            fs.foldl (doField fl h p.startDuration) (streamOf channel fStream) := by
          rw [hdo]
          simp only [streamOf, Option.getD_some, Function.update_self]
          exact opened_of_isOpen ((isOpen_fields h _ _ fs).trans (isOpen_opened _))
        rw [hdo] at hgs
        refine ⟨fs ++ gs, d', hread.trans hgs, ?_⟩
        rw [hskip, hrep, hfound, view_fields, foldl_append]

def paddedExtra : Extra := ⟨true, some [0, 0], some [0, 0, 0, 0, 16], by simp, by simp⟩

end AppView.Http2

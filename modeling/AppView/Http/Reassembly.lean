import AppView.Framework.Framing
import AppView.Framework.Runs
import AppView.Http.State

/-!
# HTTP/2 frames are reassembled from any buffers

`parseHttp2` keeps the bytes of an unfinished frame in a stash and reads the frame header
across the stash and the buffer.
-/

namespace AppView.Http

open AppView.Framework List

def http2Step (st : HttpState) (a : Arrival) : HttpState × List ProtocolInfo :=
  let r := parseHttp2 a.env st a.net a.buf a.httpId
  (r.state, r.posts)

/-! ## Frames -/

structure Frame where
  type : UInt8
  flags : UInt8
  stream : UInt32
  payload : List UInt8
  length_lt : payload.length < 2 ^ 24

def Frame.bytes (f : Frame) : List UInt8 :=
  [(f.payload.length >>> 16).toUInt8, (f.payload.length >>> 8).toUInt8,
   f.payload.length.toUInt8, f.type, f.flags,
   (f.stream >>> 24).toUInt8, (f.stream >>> 16).toUInt8,
   (f.stream >>> 8).toUInt8, f.stream.toUInt8] ++ f.payload

def lengthField (bs : List UInt8) : ℕ :=
  (bs.getD 0 0).toNat <<< 16 + (bs.getD 1 0).toNat <<< 8 + (bs.getD 2 0).toNat

def frameSize (bs : List UInt8) : Option ℕ :=
  if bs.length < 9 then none else some (9 + lengthField bs)

variable {bs : List UInt8} {n : ℕ} {st : HttpState}

theorem lengthField_append (h : 9 ≤ bs.length) (cs : List UInt8) :
    lengthField (bs ++ cs) = lengthField bs := by
  unfold lengthField
  rw [getD_append _ _ _ _ (by omega), getD_append _ _ _ _ (by omega),
    getD_append _ _ _ _ (by omega)]

def h2Framer : Framer UInt8 where
  size := frameSize
  size_pos := by
    intro bs n h
    unfold frameSize at h
    split at h <;> simp at h
    omega
  size_append := by
    intro bs n cs h
    unfold frameSize at *
    split at h
    · simp at h
    · rename_i h9
      rw [if_neg (by rw [length_append]; omega),
        lengthField_append (by omega)]
      exact h

theorem incomplete_iff (bs : List UInt8) :
    h2Framer.Incomplete bs ↔ bs.length < 9 + lengthField bs := by
  constructor
  · intro h
    by_cases h9 : bs.length < 9
    · omega
    · exact h _ (if_neg h9)
  · intro h n hn
    have hn : frameSize bs = some n := hn
    unfold frameSize at hn
    split at hn
    · simp at hn
    · rw [← Option.some.inj hn]
      exact h

theorem incomplete_nil : h2Framer.Incomplete [] :=
  (incomplete_iff []).mpr (Nat.add_pos_left (by decide) _)

variable (f : Frame) (stash : HttpBuf) (frames : List Frame)

theorem frame_isFrame : h2Framer.IsFrame f.bytes := by
  have hlt := f.length_lt
  show frameSize f.bytes = some f.bytes.length
  have hlen : f.bytes.length = 9 + f.payload.length := by
    simp [Frame.bytes]
    omega
  unfold frameSize
  rw [if_neg (by omega), hlen]
  simp only [lengthField, Frame.bytes, cons_append, getD_cons_zero,
    getD_cons_succ, Nat.toUInt8, UInt8.toNat_ofNat', Nat.shiftLeft_eq,
    Nat.shiftRight_eq_div_pow]
  congr 2
  omega

def isHeaderFrame (bs : List UInt8) : Bool := isReported (bs.getD 3 0)

def frameEvent (a : Arrival) (id : HttpId) (bs : List UInt8) : ProtocolInfo :=
  { ptype := .evtH2frame
    isServer := isSend id.src
    len := bs.length
    fd := a.httpId.sockfd
    uid := a.httpId.uid
    data := { ssl := id.isSsl, startDuration := a.env.getTime, id := id, hdr := bs }
    sockType := (connOf a.net).1
    localConn := (connOf a.net).2.1
    remoteConn := (connOf a.net).2.2 }

/-! ## One call -/

theorem http2FrameByte_eq (buf : List UInt8) (i : ℕ) :
    http2FrameByte stash buf i = (stash.buf ++ buf).getD i 0 := by
  unfold http2FrameByte
  split
  · rename_i h
    rw [getD_append _ _ _ _ h]
  · rename_i h
    rw [getD_append_right _ _ _ _ (by omega)]

theorem http2GetFrameLength_eq (buf : List UInt8) :
    http2GetFrameLength stash buf = lengthField (stash.buf ++ buf) := by
  simp [http2GetFrameLength, http2FrameByte_eq, lengthField]

theorem http2StashFrame_buf {env : HttpEnv} (henv : env.AllocSucceeds)
    (stash : HttpBuf) (buf : List UInt8) :
    (http2StashFrame env stash buf).buf = stash.buf ++ buf := by
  unfold http2StashFrame
  simp only [henv.realloc]
  split <;> rfl

variable {a : Arrival}

theorem reportHttp2_posts (henv : a.env.AllocSucceeds) (st : HttpState) (bufPos : List UInt8)
    (hn : n ≤ st.http2Buf.buf.length + bufPos.length) (hs : st.http2Buf.buf.length ≤ n) :
    (reportHttp2 a.env st a.net bufPos n a.httpId).1 = [frameEvent a st.id
        (st.http2Buf.buf ++ bufPos.take (n - st.http2Buf.buf.length))] := by
  have hhdr : (if st.http2Buf.buf.length ≠ 0 then
      st.http2Buf.buf ++ bufPos.take (n - st.http2Buf.buf.length)
      else bufPos.take n) =
      st.http2Buf.buf ++ bufPos.take (n - st.http2Buf.buf.length) := by
    split
    · rfl
    · rename_i h
      obtain h0 : st.http2Buf.buf = [] := by simpa using h
      simp [h0]
  have hlen : (st.http2Buf.buf ++ bufPos.take (n - st.http2Buf.buf.length)).length = n := by
    rw [length_append, length_take]
    omega
  unfold reportHttp2
  rw [henv.proto]
  simp only [Bool.true_eq_false, if_false, hhdr, frameEvent, hlen]

theorem frame_of_complete {stash bufPos : List UInt8} (hs : h2Framer.Incomplete stash)
    (hn : n = 9 + lengthField (stash ++ bufPos)) (hle : n ≤ stash.length + bufPos.length) :
    stash.length < n ∧ h2Framer.IsFrame (stash ++ bufPos.take (n - stash.length)) := by
  have hlt : stash.length < n := by
    by_contra hge
    rw [lengthField_append (by omega)] at hn
    have := (incomplete_iff stash).mp hs
    omega
  refine ⟨hlt, ?_⟩
  set frame := stash ++ bufPos.take (n - stash.length) with hframe
  have hlen : frame.length = n := by
    rw [hframe, length_append, length_take]
    omega
  have hfield : lengthField (stash ++ bufPos) = lengthField frame := by
    have hcut : stash ++ bufPos = frame ++ bufPos.drop (n - stash.length) := by
      rw [hframe, append_assoc, take_append_drop]
    rw [hcut, lengthField_append (by omega)]
  show frameSize _ = some _
  unfold frameSize
  rw [if_neg (by omega), ← hfield, ← hn, hlen]

theorem isHeaderFrame_append (h : 9 ≤ bs.length) (cs : List UInt8) :
    isHeaderFrame (bs ++ cs) = isHeaderFrame bs := by
  unfold isHeaderFrame
  rw [getD_append _ _ _ _ (by omega)]

/-- **The loop of `parseHttp2`** reads `stash ++ bufPos` as frames: it posts the
header frames among them and leaves the rest in the stash. -/
theorem parseHttp2Loop_spec (henv : a.env.AllocSucceeds) (hm : ¬ http2Magic <+: a.buf) :
    ∀ (fuel : ℕ) (st : HttpState) (bufPos : List UInt8) (ret : Bool),
      bufPos.length < fuel → h2Framer.Incomplete st.http2Buf.buf →
      let out := parseHttp2Loop a.env a.net a.buf a.httpId fuel st bufPos ret
      ∃ fs r, h2Framer.Splits (st.http2Buf.buf ++ bufPos) fs r ∧
        out.state.http2Buf.buf = r ∧ out.state.id = st.id ∧
        out.posts = (fs.filter isHeaderFrame).map (frameEvent a st.id) := by
  intro fuel
  induction fuel with
  | zero =>
    intro st bufPos ret hf
    omega
  | succ fuel ih =>
    intro st bufPos ret hf hinc
    simp only [parseHttp2Loop, hm, and_false, if_false, false_and,
      http2GetFrameLength_eq, http2GetFrameType, http2FrameByte_eq]
    by_cases hnil : bufPos = []
    · subst hnil
      rw [if_pos rfl]
      exact ⟨[], st.http2Buf.buf, by simpa using Framer.Splits.nil_of_incomplete hinc,
        rfl, rfl, rfl⟩
    rw [if_neg hnil]
    by_cases hshort : h2Framer.Incomplete (st.http2Buf.buf ++ bufPos)
    · -- no complete frame: both tests of the source lead to the stash
      have hlt := (incomplete_iff _).mp hshort
      rw [length_append] at hlt
      refine ⟨[], st.http2Buf.buf ++ bufPos, Framer.Splits.nil_of_incomplete hshort, ?_⟩
      by_cases h9 : st.http2Buf.buf.length + bufPos.length < 9
      · rw [if_pos h9]
        exact ⟨http2StashFrame_buf henv _ _, rfl, rfl⟩
      · rw [if_neg h9, if_pos hlt]
        exact ⟨http2StashFrame_buf henv _ _, rfl, rfl⟩
    rw [incomplete_iff, length_append, not_lt] at hshort
    rw [if_neg (by omega), if_neg (by omega), Nat.add_comm (lengthField _) 9]
    obtain ⟨hlt, hframe⟩ := frame_of_complete hinc rfl hshort
    have hposts := reportHttp2_posts henv st bufPos hshort hlt.le
    have h9 : 9 ≤ 9 + lengthField (st.http2Buf.buf ++ bufPos) := by omega
    generalize 9 + lengthField (st.http2Buf.buf ++ bufPos) = n at *
    have hcut : st.http2Buf.buf ++ bufPos =
        (st.http2Buf.buf ++ bufPos.take (n - st.http2Buf.buf.length)) ++
          bufPos.drop (n - st.http2Buf.buf.length) := by
      rw [append_assoc, take_append_drop]
    have htype : isReported ((st.http2Buf.buf ++ bufPos).getD 3 0) =
        isHeaderFrame (st.http2Buf.buf ++ bufPos.take (n - st.http2Buf.buf.length)) := by
      show isHeaderFrame (st.http2Buf.buf ++ bufPos) = _
      rw [hcut, isHeaderFrame_append]
      rw [length_append, length_take]
      omega
    rw [htype]
    -- the rest of the buffer, with the stash emptied
    obtain ⟨fs, r, hsplit, hbuf, hid, hpost⟩ :=
      ih { st with http2Buf := { st.http2Buf with buf := [] } }
        (bufPos.drop (n - st.http2Buf.buf.length)) _
        (by rw [length_drop]; omega) incomplete_nil
    refine ⟨(st.http2Buf.buf ++ bufPos.take (n - st.http2Buf.buf.length)) :: fs, r,
      ?_, hbuf, hid, ?_⟩
    · rw [hcut]
      exact Framer.Splits.cons hframe hsplit
    · refine (congrArg (_ ++ ·) hpost).trans ?_
      rw [filter_cons]
      split
      · rw [hposts]
        rfl
      · rfl

theorem http2Step_spec (henv : a.env.AllocSucceeds) (hm : ¬ http2Magic <+: a.buf)
    (hinc : h2Framer.Incomplete st.http2Buf.buf) :
    ∃ fs r, h2Framer.Splits (st.http2Buf.buf ++ a.buf) fs r ∧
      (http2Step st a).1.http2Buf.buf = r ∧ (http2Step st a).1.id = st.id ∧
      (http2Step st a).2 = (fs.filter isHeaderFrame).map (frameEvent a st.id) := by
  unfold http2Step parseHttp2
  split_ifs with hnil
  · rw [hnil]
    exact ⟨[], st.http2Buf.buf, by simpa using Framer.Splits.nil_of_incomplete hinc, rfl, rfl, rfl⟩
  · exact parseHttp2Loop_spec henv hm (a.buf.length + 1) st a.buf false (Nat.lt_succ_self _) hinc

/-! ## Any number of buffers -/

def posted (p : ProtocolInfo) : MetricT × List UInt8 × ℕ :=
  (p.ptype, p.data.hdr, p.len)

def headerFrames (fs : List (List UInt8)) : List (MetricT × List UInt8 × ℕ) :=
  (fs.filter isHeaderFrame).map fun f => (.evtH2frame, f, f.length)

theorem headerFrames_append (fs gs : List (List UInt8)) :
    headerFrames (fs ++ gs) = headerFrames fs ++ headerFrames gs := by
  simp [headerFrames]

theorem posted_frameEvents (a : Arrival) (id : HttpId) (fs : List (List UInt8)) :
    ((fs.filter isHeaderFrame).map (frameEvent a id)).map posted = headerFrames fs := by
  rw [map_map]
  rfl

/-- **A run over buffers** reads all their bytes as frames, whatever the cuts. -/
theorem http2Run_spec {as : List Arrival} (henv : ∀ a ∈ as, a.env.AllocSucceeds)
    (hm : ∀ a ∈ as, ¬ http2Magic <+: a.buf) (hinc : h2Framer.Incomplete st.http2Buf.buf) :
    ∃ fs, h2Framer.Splits (st.http2Buf.buf ++ (as.map Arrival.buf).flatten) fs
        (run http2Step st as).1.http2Buf.buf ∧
      (run http2Step st as).2.flatten.map posted = headerFrames fs := by
  induction as generalizing st with
  | nil =>
    refine ⟨[], ?_, rfl⟩
    simpa using Framer.Splits.nil_of_incomplete hinc
  | cons a as ih =>
    obtain ⟨fs, r, hsplit, hbuf, -, hposts⟩ :=
      http2Step_spec (henv a (by simp)) (hm a (by simp)) hinc
    have hinc' : h2Framer.Incomplete (http2Step st a).1.http2Buf.buf :=
      hbuf ▸ hsplit.rest
    obtain ⟨gs, hsplit', hposts'⟩ := ih (fun b hb => henv b (by simp [hb]))
      (fun b hb => hm b (by simp [hb])) hinc'
    rw [hbuf] at hsplit'
    refine ⟨fs ++ gs, ?_, ?_⟩
    · have := hsplit.append hsplit'
      rwa [append_assoc] at this
    · rw [run_cons, flatten_cons, map_append, hposts, hposts',
        posted_frameEvents, headerFrames_append]

theorem frames_splits {tail : List UInt8} (htail : h2Framer.Incomplete tail) :
    h2Framer.Splits ((frames.map Frame.bytes).flatten ++ tail) (frames.map Frame.bytes) tail := by
  refine ⟨rfl, ?_, htail⟩
  intro f hf
  obtain ⟨g, -, rfl⟩ := mem_map.mp hf
  exact frame_isFrame g

theorem frame_bytes_length : f.bytes.length = 9 + f.payload.length := by
  simp only [Frame.bytes, length_append, length_cons, length_nil]

theorem isHeaderFrame_bytes : isHeaderFrame f.bytes = isReported f.type := by
  rfl

theorem headerFrames_bytes : headerFrames (frames.map Frame.bytes) =
      (frames.filter fun f => isReported f.type).map fun f =>
        (.evtH2frame, f.bytes, 9 + f.payload.length) := by
  unfold headerFrames
  rw [filter_map, map_map]
  apply map_congr_left
  intro f _
  simp [frame_bytes_length]

/-- **HTTP/2 reassembly.** The bytes of any frames and of an incomplete tail
arrive in any buffers that do not start with the connection preface. The events
posted are the header frames, in order, each with its own bytes. After any
number of the buffers the frames that are `done` have been handled, and the
stash holds what has arrived of the one after them: a proper initial part of the
next frame, or of the tail. -/
theorem parseHttp2_reassembles {st : HttpState} (hst : st.http2Buf.buf = [])
    (frames : List Frame) {tail : List UInt8} (htail : h2Framer.Incomplete tail)
    {arrivals : List Arrival} (hbytes : (arrivals.map Arrival.buf).flatten =
      (frames.map Frame.bytes).flatten ++ tail) (henv : ∀ a ∈ arrivals, a.env.AllocSucceeds)
    (hm : ∀ a ∈ arrivals, ¬ http2Magic <+: a.buf) :
    (run http2Step st arrivals).2.flatten.map posted =
        ((frames.filter fun f => isReported f.type).map fun f =>
          (.evtH2frame, f.bytes, 9 + f.payload.length)) ∧
      (run http2Step st arrivals).1.http2Buf.buf = tail ∧
      ∀ seen later, arrivals = seen ++ later → ∃ done rest, frames = done ++ rest ∧
          (seen.map Arrival.buf).flatten = (done.map Frame.bytes).flatten ++
            (run http2Step st seen).1.http2Buf.buf ∧
          h2Framer.Incomplete (run http2Step st seen).1.http2Buf.buf ∧
          ((rest = [] ∧ (run http2Step st seen).1.http2Buf.buf <+: tail) ∨ ∃ f fs, rest = f :: fs ∧
              (run http2Step st seen).1.http2Buf.buf <+: f.bytes ∧
              (run http2Step st seen).1.http2Buf.buf.length < 9 + f.payload.length) ∧
          (run http2Step st seen).2.flatten.map posted =
            ((done.filter fun f => isReported f.type).map fun f =>
              (.evtH2frame, f.bytes, 9 + f.payload.length)) := by
  have hinc : h2Framer.Incomplete st.http2Buf.buf := hst ▸ incomplete_nil
  have hall := frames_splits frames htail
  rw [← hbytes] at hall
  refine ⟨?_, ?_, ?_⟩
  · obtain ⟨fs, hsplit, hposts⟩ := http2Run_spec henv hm hinc
    rw [hst, nil_append] at hsplit
    rw [hposts, (hsplit.unique hall).1, headerFrames_bytes]
  · obtain ⟨fs, hsplit, -⟩ := http2Run_spec henv hm hinc
    rw [hst, nil_append] at hsplit
    exact (hsplit.unique hall).2
  · rintro seen later rfl
    obtain ⟨gs, hsplit, hposts⟩ := http2Run_spec (fun a ha => henv a (mem_append_left _ ha))
      (fun a ha => hm a (mem_append_left _ ha)) hinc
    rw [hst, nil_append] at hsplit
    -- the later buffers are read from the stash the earlier ones left
    obtain ⟨gs', hsplit', -⟩ := http2Run_spec (fun a ha => henv a (mem_append_right _ ha))
      (fun a ha => hm a (mem_append_right _ ha)) hsplit.rest
    have hwhole := hsplit.append hsplit'
    rw [← flatten_append, ← map_append] at hwhole
    obtain ⟨hfs, htl⟩ := hwhole.unique hall
    obtain ⟨done, rest, rfl, rfl, rfl⟩ := map_eq_append_iff.mp hfs.symm
    refine ⟨done, rest, rfl, hsplit.bytes, hsplit.rest, ?_, ?_⟩
    · rw [map_append, flatten_append, map_append] at hall
      rcases hsplit.rest_of_append hall with ⟨hnil, hpre⟩ | ⟨f, fs, hcons, hpre, hlt⟩
      · exact Or.inl ⟨map_eq_nil_iff.mp hnil, hpre⟩
      · obtain ⟨g, gs, rfl, rfl, rfl⟩ := map_eq_cons_iff.mp hcons
        exact Or.inr ⟨g, gs, rfl, hpre, frame_bytes_length g ▸ hlt⟩
    · rw [hposts, headerFrames_bytes]

/-- A HEADERS frame cut inside its 9-byte header, with one byte of the next
frame behind it. -/
theorem parseHttp2_reassembles_cut_header : (run http2Step {} [⟨.idle, none, {}, [0, 0, 2, 1]⟩,
        ⟨.idle, none, {}, [4, 0, 0, 0, 1, 7, 8, 0]⟩]).2.flatten.map posted =
      [(.evtH2frame, [0, 0, 2, 1, 4, 0, 0, 0, 1, 7, 8], 11)] ∧
    (run http2Step {} [⟨.idle, none, {}, [0, 0, 2, 1]⟩,
        ⟨.idle, none, {}, [4, 0, 0, 0, 1, 7, 8, 0]⟩]).1.http2Buf.buf = [0] := by
  have htail : h2Framer.Incomplete [0] := (incomplete_iff [0]).mpr (by decide)
  obtain ⟨hposts, hstash, -⟩ :=
    @parseHttp2_reassembles {} rfl [⟨1, 4, 1, [7, 8], by decide⟩] [0] htail
      [⟨.idle, none, {}, [0, 0, 2, 1]⟩, ⟨.idle, none, {}, [4, 0, 0, 0, 1, 7, 8, 0]⟩]
      (by decide) (by simp [HttpEnv.idle_allocSucceeds])
      (by simp only [mem_cons, not_mem_nil, or_false, forall_eq_or_imp, forall_eq]; decide)
  exact ⟨hposts, hstash⟩

/-! ## The connection preface -/

section Preface

variable {env : HttpEnv} {net : Option NetInfo} {httpId : HttpId}

def frameRound (env : HttpEnv) (net : Option NetInfo) (httpId : HttpId)
    (next : HttpState → List UInt8 → Bool → Parsed HttpState) (state : HttpState)
    (bufPos : List UInt8) (ret : Bool) : Parsed HttpState :=
  if bufPos = [] then ⟨state, [], ret⟩
  else if state.http2Buf.buf.length + bufPos.length < 9 then
    ⟨{ state with http2Buf := http2StashFrame env state.http2Buf bufPos }, [], false⟩
  else
    let fLen := http2GetFrameLength state.http2Buf bufPos
    if state.http2Buf.buf.length + bufPos.length < 9 + fLen then
      ⟨{ state with http2Buf := http2StashFrame env state.http2Buf bufPos }, [], false⟩
    else
      let report :=
        if isReported (http2GetFrameType state.http2Buf bufPos) then
          reportHttp2 env state net bufPos (fLen + 9) httpId
        else ([], false)
      let r := next { state with http2Buf := { state.http2Buf with buf := [] } }
        (bufPos.drop (fLen + 9 - state.http2Buf.buf.length)) (ret || report.2)
      { r with posts := report.1 ++ r.posts }

variable {buf : List UInt8} {bufPos : List UInt8}

theorem parseHttp2Loop_plain (hm : ¬ (bufPos.length ≥ http2MagicLen ∧ http2Magic <+: buf))
    (fuel : ℕ) (st : HttpState) (ret : Bool) :
    parseHttp2Loop env net buf httpId (fuel + 1) st bufPos ret =
      frameRound env net httpId (parseHttp2Loop env net buf httpId fuel) st bufPos ret := by
  simp [parseHttp2Loop, frameRound, hm]

theorem parseHttp2Loop_magic (hm : bufPos.length ≥ http2MagicLen ∧ http2Magic <+: buf)
    (fuel : ℕ) (st : HttpState) (ret : Bool) :
    parseHttp2Loop env net buf httpId (fuel + 1) st bufPos ret =
      if bufPos.drop http2MagicLen = [] then ⟨st, [], false⟩
      else frameRound env net httpId (parseHttp2Loop env net buf httpId fuel) st
        (bufPos.drop http2MagicLen) ret := by
  have hne : bufPos ≠ [] := ne_nil_of_length_pos (lt_of_lt_of_le (by decide) hm.1)
  by_cases hnil : bufPos.drop http2MagicLen = []
  · simp only [parseHttp2Loop, hm, hne, hnil, if_true, if_false, and_self]
  · simp only [parseHttp2Loop, frameRound, hm, hne, hnil, if_true, if_false, and_self, and_false]

theorem parseHttp2Loop_preface (hne : buf ≠ []) (fuel : ℕ) (st : HttpState) (ret : Bool) :
    parseHttp2Loop env net (http2Magic ++ buf) httpId (fuel + 1) st (http2Magic ++ buf) ret =
      frameRound env net httpId (parseHttp2Loop env net (http2Magic ++ buf) httpId fuel) st
        buf ret := by
  have hlong : (http2Magic ++ buf).length ≥ http2MagicLen := by
    rw [length_append]
    exact Nat.le_add_right _ _
  have hdrop : (http2Magic ++ buf).drop http2MagicLen = buf :=
    @drop_left _ http2Magic _
  rw [parseHttp2Loop_magic ⟨hlong, prefix_append _ _⟩, hdrop, if_neg hne]

def postedBytes (posts : List ProtocolInfo) : ℕ := (posts.map ProtocolInfo.len).sum

theorem postedBytes_append (posts posts' : List ProtocolInfo) :
    postedBytes (posts ++ posts') = postedBytes posts + postedBytes posts' := by
  simp [postedBytes]

/-- What a round posts was in the bytes that it reads. -/
theorem frameRound_postedBytes {next : HttpState → List UInt8 → Bool → Parsed HttpState}
    {st : HttpState} (hst : st.http2Buf.buf = [])
    (hnext : ∀ (st' : HttpState) (rest : List UInt8) (ret : Bool), st'.http2Buf.buf = [] →
      postedBytes (next st' rest ret).posts ≤ rest.length) (ret : Bool) :
    postedBytes (frameRound env net httpId next st bufPos ret).posts ≤ bufPos.length := by
  have hnil : postedBytes [] = 0 := rfl
  unfold frameRound
  simp only [hst, length_nil, Nat.zero_add, Nat.sub_zero]
  split_ifs with hempty hshort hcut
  · rw [hnil]
    omega
  · rw [hnil]
    omega
  · rw [hnil]
    omega
  all_goals
    rw [postedBytes_append]
    refine le_trans (Nat.add_le_add_left (hnext _ _ _ rfl) _) ?_
    rw [length_drop]
  · have hreport : postedBytes (reportHttp2 env st net bufPos
        (http2GetFrameLength st.http2Buf bufPos + 9) httpId).1 ≤
        http2GetFrameLength st.http2Buf bufPos + 9 := by
      unfold reportHttp2 postedBytes
      split <;> simp
    omega
  · rw [hnil]
    omega

theorem parseHttp2Loop_postedBytes (fuel : ℕ) :
    ∀ (st : HttpState) (bufPos : List UInt8) (ret : Bool), st.http2Buf.buf = [] →
      postedBytes (parseHttp2Loop env net buf httpId fuel st bufPos ret).posts ≤
        if bufPos.length ≥ http2MagicLen ∧ http2Magic <+: buf then bufPos.length - http2MagicLen
        else bufPos.length := by
  induction fuel with
  | zero => exact fun st bufPos ret _ => Nat.zero_le _
  | succ fuel ih =>
    intro st bufPos ret hst
    have hnext : ∀ (st' : HttpState) (rest : List UInt8) (ret : Bool), st'.http2Buf.buf = [] →
        postedBytes (parseHttp2Loop env net buf httpId fuel st' rest ret).posts ≤
          rest.length := by
      intro st' rest ret' hst'
      refine le_trans (ih st' rest ret' hst') ?_
      split <;> omega
    split
    next hm =>
      rw [parseHttp2Loop_magic hm]
      split
      · exact Nat.zero_le _
      · rw [← length_drop]
        exact frameRound_postedBytes hst hnext ret
    next hm =>
      rw [parseHttp2Loop_plain hm]
      exact frameRound_postedBytes hst hnext ret

theorem frameRound_congr {next next' : HttpState → List UInt8 → Bool → Parsed HttpState}
    {st : HttpState}
    (h : ∀ st' ret, st'.http2Buf.buf = [] → next st' (bufPos.drop
        (http2GetFrameLength st.http2Buf bufPos + 9 - st.http2Buf.buf.length)) ret =
      next' st' (bufPos.drop
        (http2GetFrameLength st.http2Buf bufPos + 9 - st.http2Buf.buf.length)) ret)
    (ret : Bool) :
    frameRound env net httpId next st bufPos ret =
      frameRound env net httpId next' st bufPos ret := by
  simp only [frameRound]
  rw [h _ _ rfl]

theorem parseHttp2Loop_congr {buf' : List UInt8} :
    ∀ {fuel fuel' : ℕ} {st : HttpState} {bufPos : List UInt8} (ret : Bool),
      st.http2Buf.buf = [] → bufPos.length < fuel → bufPos.length < fuel' →
      (bufPos.length < http2MagicLen ∨ ¬ http2Magic <+: buf) →
      (bufPos.length < http2MagicLen ∨ ¬ http2Magic <+: buf') →
      parseHttp2Loop env net buf httpId fuel st bufPos ret =
        parseHttp2Loop env net buf' httpId fuel' st bufPos ret := by
  intro fuel
  induction fuel with
  | zero =>
    intro fuel' st bufPos ret _ hfuel
    omega
  | succ fuel ih =>
    intro fuel' st bufPos ret hst hfuel hfuel' hm hm'
    obtain ⟨fuel', rfl⟩ : ∃ k, fuel' = k + 1 := ⟨fuel' - 1, by omega⟩
    have hfails : ∀ {b : List UInt8}, (bufPos.length < http2MagicLen ∨ ¬ http2Magic <+: b) →
        ¬ (bufPos.length ≥ http2MagicLen ∧ http2Magic <+: b) := by
      rintro b (hlt | hb) ⟨hge, hpre⟩
      · omega
      · exact hb hpre
    rw [parseHttp2Loop_plain (hfails hm), parseHttp2Loop_plain (hfails hm')]
    by_cases hnil : bufPos = []
    · simp [frameRound, hnil]
    · have hpos : 0 < bufPos.length := length_pos_iff.2 hnil
      refine frameRound_congr (fun st' ret' hst' => ?_) ret
      have hrest : (bufPos.drop (http2GetFrameLength st.http2Buf bufPos + 9 -
          st.http2Buf.buf.length)).length < bufPos.length := by
        rw [hst, length_drop, length_nil]
        omega
      exact ih ret' hst' (by omega) (by omega) (hm.imp_left hrest.trans) (hm'.imp_left hrest.trans)

/-- The first round is the same with and without the preface in front of the frames. -/
theorem parseHttp2_first {st : HttpState} (hst : st.http2Buf.buf = []) (f : Frame)
    (fs : List Frame) (hplain : ¬ http2Magic <+: ((f :: fs).map Frame.bytes).flatten) :
    ∃ (posts : List ProtocolInfo) (st' : HttpState) (ret : Bool), st'.http2Buf.buf = [] ∧
      ∀ buf ∈ [http2Magic ++ ((f :: fs).map Frame.bytes).flatten,
          ((f :: fs).map Frame.bytes).flatten], ∃ fuel,
        (fs.map Frame.bytes).flatten.length < fuel ∧
        parseHttp2 env st net buf httpId =
          { parseHttp2Loop env net buf httpId fuel st' (fs.map Frame.bytes).flatten ret with
            posts := posts ++ (parseHttp2Loop env net buf httpId fuel st'
              (fs.map Frame.bytes).flatten ret).posts } := by
  set buf := ((f :: fs).map Frame.bytes).flatten with hbuf
  have hflat : buf = f.bytes ++ (fs.map Frame.bytes).flatten := by
    rw [hbuf, map_cons, flatten_cons]
  have hlen := frame_bytes_length f
  have hlong : buf.length = f.bytes.length + (fs.map Frame.bytes).flatten.length := by
    rw [hflat, length_append]
  have hne : buf ≠ [] := ne_nil_of_length_pos (by omega)
  have hmagic : http2Magic ++ buf ≠ [] := append_ne_nil_of_right_ne_nil _ hne
  have hfield : 9 + http2GetFrameLength st.http2Buf buf = f.bytes.length := by
    have hframe : frameSize f.bytes = some f.bytes.length := frame_isFrame f
    rw [frameSize, if_neg (by omega)] at hframe
    rw [http2GetFrameLength_eq, hst, nil_append, hflat, lengthField_append (by omega)]
    exact Option.some.inj hframe
  have hrest : buf.drop (http2GetFrameLength st.http2Buf buf + 9) =
      (fs.map Frame.bytes).flatten := by
    rw [Nat.add_comm, hfield, hflat, drop_left]
  obtain ⟨report, hround⟩ : ∃ report : List ProtocolInfo × Bool,
      ∀ next : HttpState → List UInt8 → Bool → Parsed HttpState,
        frameRound env net httpId next st buf false =
          let r := next { st with http2Buf := { st.http2Buf with buf := [] } }
            (fs.map Frame.bytes).flatten report.2
          { r with posts := report.1 ++ r.posts } := by
    refine ⟨if isReported (http2GetFrameType st.http2Buf buf) then
      reportHttp2 env st net buf (http2GetFrameLength st.http2Buf buf + 9) httpId
      else ([], false), fun next => ?_⟩
    unfold frameRound
    simp only [hst, length_nil, Nat.zero_add, Nat.sub_zero, hrest, Bool.false_or]
    rw [if_neg hne, if_neg (by omega), if_neg (by omega)]
  refine ⟨report.1, { st with http2Buf := { st.http2Buf with buf := [] } }, report.2, rfl, ?_⟩
  intro buf' hbuf'
  simp only [mem_cons, not_mem_nil, or_false] at hbuf'
  rcases hbuf' with rfl | rfl
  · refine ⟨(http2Magic ++ buf).length, ?_, ?_⟩
    · rw [length_append]
      omega
    · rw [parseHttp2, if_neg hmagic, parseHttp2Loop_preface hne, hround]
  · refine ⟨buf.length, by omega, ?_⟩
    rw [parseHttp2, if_neg hne, parseHttp2Loop_plain (fun h => hplain h.2), hround]

/-- Without the preface every byte of header frames is posted. -/
theorem parseHttp2Loop_headers (henv : env.AllocSucceeds) (hplain : ¬ http2Magic <+: buf)
    {fuel : ℕ} {st : HttpState} (hst : st.http2Buf.buf = []) {fs : List Frame}
    (hfuel : (fs.map Frame.bytes).flatten.length < fuel)
    (hreported : ∀ g ∈ fs, isReported g.type = true) (ret : Bool) :
    postedBytes (parseHttp2Loop env net buf httpId fuel st (fs.map Frame.bytes).flatten
      ret).posts = (fs.map Frame.bytes).flatten.length := by
  obtain ⟨gs, r, hsplit, -, -, hposts⟩ := @parseHttp2Loop_spec ⟨env, net, httpId, buf⟩ henv hplain
    fuel st (fs.map Frame.bytes).flatten ret hfuel (hst ▸ incomplete_nil)
  have hall := frames_splits fs incomplete_nil
  rw [append_nil] at hall
  rw [hst, nil_append] at hsplit
  have hheader : (fs.map Frame.bytes).filter isHeaderFrame = fs.map Frame.bytes := by
    rw [filter_eq_self]
    intro bytes hbytes
    obtain ⟨g, hg, rfl⟩ := mem_map.mp hbytes
    rw [isHeaderFrame_bytes]
    exact hreported g hg
  rw [hposts, (hsplit.unique hall).1, hheader, postedBytes, map_map, length_flatten]
  rfl

/-- **The preface in front of complete frames** changes nothing, as long as fewer bytes than it
has come behind the first frame: the test for it looks at the start of the buffer in every
round, so with more, 24 bytes are skipped before the second frame too. Where all the frames
behind the first are header frames, what is posted then differs. -/
theorem parseHttp2_preface (env : HttpEnv) (net : Option NetInfo) (httpId : HttpId)
    {st : HttpState} (hst : st.http2Buf.buf = []) (f : Frame) (fs : List Frame)
    (hplain : ¬ http2Magic <+: ((f :: fs).map Frame.bytes).flatten) :
    ((fs.map Frame.bytes).flatten.length < http2MagicLen →
      parseHttp2 env st net (http2Magic ++ ((f :: fs).map Frame.bytes).flatten) httpId =
        parseHttp2 env st net ((f :: fs).map Frame.bytes).flatten httpId) ∧
    (env.AllocSucceeds → (∀ g ∈ fs, isReported g.type = true) →
      ((parseHttp2 env st net (http2Magic ++ ((f :: fs).map Frame.bytes).flatten)
          httpId).posts = (parseHttp2 env st net ((f :: fs).map Frame.bytes).flatten
            httpId).posts ↔
        (fs.map Frame.bytes).flatten.length < http2MagicLen)) := by
  obtain ⟨posts, st', ret, hst', hrounds⟩ :=
    @parseHttp2_first env net httpId st hst f fs hplain
  obtain ⟨fuel, hfuel, hwith⟩ := hrounds _ mem_cons_self
  obtain ⟨fuel', hfuel', halone⟩ := hrounds _ (mem_cons_of_mem _ mem_cons_self)
  have hfew : (fs.map Frame.bytes).flatten.length < http2MagicLen →
      parseHttp2 env st net (http2Magic ++ ((f :: fs).map Frame.bytes).flatten) httpId =
        parseHttp2 env st net ((f :: fs).map Frame.bytes).flatten httpId := by
    intro h
    rw [hwith, halone, parseHttp2Loop_congr ret hst' hfuel hfuel' (.inl h) (.inl h)]
  refine ⟨hfew, fun henv hreported => ⟨fun heq => ?_, fun h => by rw [hfew h]⟩⟩
  -- by the bytes posted behind the first frame
  by_contra hmany
  rw [hwith, halone] at heq
  have hsame := append_cancel_left heq
  have hall := @parseHttp2Loop_headers env net httpId _ henv hplain fuel' st' hst' fs hfuel'
    hreported ret
  have hskip := @parseHttp2Loop_postedBytes env net httpId
    (http2Magic ++ ((f :: fs).map Frame.bytes).flatten) fuel st' (fs.map Frame.bytes).flatten
    ret hst'
  rw [if_pos ⟨not_lt.mp hmany, prefix_append _ _⟩, hsame, hall] at hskip
  have hpos : 0 < http2MagicLen := by decide
  omega

def headers : Frame := ⟨1, 4, 1, [7, 8], by decide⟩

def emptyData : Frame := ⟨0, 1, 1, [], by decide⟩

def longHeaders : Frame := ⟨1, 4, 3, List.replicate 15 9, by decide⟩

/-- One more frame, of nine bytes. -/
theorem parseHttp2_preface_two :
    parseHttp2 .idle {} none (http2Magic ++ ([headers, emptyData].map Frame.bytes).flatten) {} =
      parseHttp2 .idle {} none ([headers, emptyData].map Frame.bytes).flatten {} ∧
    (parseHttp2 .idle {} none ([headers, emptyData].map Frame.bytes).flatten {}).posts.map
      posted = [(.evtH2frame, headers.bytes, 11)] :=
  ⟨(parseHttp2_preface .idle none {} rfl headers [emptyData] (by decide)).1 (by decide),
    by decide +kernel⟩

/-- One more frame, of 24 bytes: behind the preface it is not reported. -/
theorem parseHttp2_preface_skips :
    (parseHttp2 .idle {} none ([headers, longHeaders].map Frame.bytes).flatten {}).posts.map
      posted = [(.evtH2frame, headers.bytes, 11), (.evtH2frame, longHeaders.bytes, 24)] ∧
    (parseHttp2 .idle {} none
      (http2Magic ++ ([headers, longHeaders].map Frame.bytes).flatten) {}).posts.map posted =
      [(.evtH2frame, headers.bytes, 11)] := by
  decide +kernel

end Preface

end AppView.Http

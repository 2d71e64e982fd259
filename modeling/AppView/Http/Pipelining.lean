import AppView.Http.Bodies

/-!
# HTTP/1 messages in one buffer

`parseHttp1` has a loop over header lines but none over messages. Whatever a buffer holds, one
call posts at most one event (`http1Step_posts`), with a header of at most `MAX_HDR_ALLOC`
bytes.
-/

namespace AppView.Http

open AppView.Framework List

def AtMostOne (posts : List ProtocolInfo) : Prop :=
  posts = [] ∨ ∃ p, posts = [p] ∧ p.data.hdr.length ≤ maxHdrAlloc

variable {st : HttpState} (env : HttpEnv)

theorem reportHttp1_atMostOne (h : st.hdr.length ≤ maxHdrAlloc) :
    AtMostOne (reportHttp1 env st).2 := by
  unfold reportHttp1
  split
  · exact .inl rfl
  · split
    · exact .inl rfl
    · exact .inr ⟨_, rfl, h⟩

theorem appendHeader_length_le (hst : HdrallocOk st.hdralloc) (bs : List UInt8) :
    (appendHeader env st bs).hdr.length ≤ maxHdrAlloc := by
  rcases appendHeader_cases env hst bs with h | ⟨a, -, hle, h⟩
  · rw [h]
    exact Nat.zero_le _
  · rw [h, length_append]
    exact hle

theorem endOfHeaders_atMostOne (hst : HdrallocOk st.hdralloc) (rest : List UInt8) :
    AtMostOne (endOfHeaders env st rest).2 := by
  have hle := appendHeader_length_le env hst [0]
  unfold endOfHeaders
  simp only []
  split
  · split <;> exact reportHttp1_atMostOne env hle
  · exact reportHttp1_atMostOne env hle

theorem parseHeaders_atMostOne (hst : Wf st) (buf : List UInt8) :
    AtMostOne (parseHeaders env st buf).posts := by
  have hloop := headerLoop_invariant (wf_invariant env st.id).append hst (buf.length + 1) buf
  unfold parseHeaders
  split
  · exact .inl rfl
  · rename_i heq
    rw [heq] at hloop
    exact endOfHeaders_atMostOne env hloop.alloc _

/-- **One buffer posts at most one event**, from any well-formed state. -/
theorem http1Step_posts (hst : Wf st) (a : Arrival) : AtMostOne (http1Step st a).2 := by
  rw [http1Step]
  rcases parseHttp1_cases st a.buf a.httpId with ⟨st', -, hparse⟩ | ⟨st', part, hfrom, hparse⟩
  · rw [hparse]
    exact .inl rfl
  · rw [hparse]
    exact parseHeaders_atMostOne a.env ((wf_invariant a.env a.httpId).parsesFrom hst hfrom) part

theorem AtMostOne.length_le {posts : List ProtocolInfo} (h : AtMostOne posts) :
    posts.length ≤ 1 := by
  rcases h with rfl | ⟨p, rfl, -⟩
  · exact Nat.zero_le _
  · exact le_rfl

theorem single_message (hwf : Wf st) (hnone : st.state = .httpNone) {a : Arrival}
    (henv : a.env.AllocSucceeds) {m : Message} (hbuf : a.buf = m.bytes) :
    postedHeaders (http1Step st a).2 = [m.block.header ++ [0]] ↔
      m.block.header.length + 1 ≤ maxHdrAlloc ∧ (m.block.bytes.length : ℤ) ≤ cInt a.buf.length := by
  have hbl := block_bytes_length m.block
  have hidle : Between a.httpId.isSsl st ([] : List UInt8).length :=
    between_idle hwf hnone
  have hne : m.block.bytes ++ m.body ≠ [] :=
    length_pos_iff.mp (by rw [length_append]; omega)
  obtain ⟨st', hwf', hnone', hstep⟩ := http1Step_beyond hidle rfl
    (show a.buf = [] ++ (m.block.bytes ++ m.body) from hbuf) hne
  by_cases hfit : m.block.header.length + 1 ≤ maxHdrAlloc
  · by_cases hcov : (m.block.bytes.length : ℤ) ≤ cInt a.buf.length
    · refine iff_of_true ?_ ⟨hfit, hcov⟩
      rw [hbuf, Message.bytes] at hcov
      obtain ⟨st'', hhdr, hid, halloc, hparse⟩ :=
        findHeaders_block henv hwf' hnone' hfit hcov
      have hposts := (endOfHeaders_spec henv halloc (by rwa [hhdr]) (httpEnd ++ m.body)).1
      rw [hstep, hparse, hposts, hhdr]
      rfl
    · refine iff_of_false ?_ fun h => hcov h.2
      rw [hbuf, Message.bytes] at hcov
      rw [hstep, findHeaders_uncovered henv hwf' hnone' hfit (not_le.mp hcov)]
      simp [postedHeaders]
  · -- the header is longer than any header that is posted
    refine iff_of_false (fun h => ?_) fun h => hfit h.1
    rcases http1Step_posts hwf a with hp | ⟨p, hp, hle⟩
    · rw [hp] at h
      simp [postedHeaders] at h
    · rw [hp] at h
      have hhdr : p.data.hdr = m.block.header ++ [0] := by
        simpa [postedHeaders] using h
      rw [hhdr, length_append] at hle
      exact hfit hle

/-- **HTTP/1 pipelining.** Messages arrive back to back in one buffer. They are
all reported, in order, exactly if there are none, or there is only one, its
header fits, and the converted length of the buffer covers its header block. -/
theorem parseHttp1_pipelined {st : HttpState} (hwf : Wf st)
    (hnone : st.state = .httpNone) {a : Arrival} (henv : a.env.AllocSucceeds)
    {msgs : List Message} (hbuf : a.buf = (msgs.map Message.bytes).flatten) :
    (postedHeaders (http1Step st a).2 = msgs.map fun m => m.block.header ++ [0]) ↔
      msgs = [] ∨ ∃ m, msgs = [m] ∧ m.block.header.length + 1 ≤ maxHdrAlloc ∧
        (m.block.bytes.length : ℤ) ≤ cInt a.buf.length := by
  match msgs with
  | [] =>
    refine iff_of_true ?_ (.inl rfl)
    have hnil : a.buf = [] := hbuf
    -- there is no `HTTP/` in nothing
    have hsearch : searchExec gHttpStart [] (cInt ([] : List UInt8).length) = none := by
      decide
    unfold http1Step parseHttp1 findHeaders
    rw [if_neg (fun h => h.1 hnone), if_neg (by rw [hnone]; decide), if_pos hnone, hnil, hsearch]
    rfl
  | [m] =>
    have hone : a.buf = m.bytes := by simpa using hbuf
    rw [show ([m].map fun m => m.block.header ++ [0]) = [m.block.header ++ [0]] from rfl,
      single_message hwf hnone henv hone]
    simp
  | m :: m' :: ms =>
    refine iff_of_false (fun h => ?_) ?_
    · have hlen := congrArg length h
      have hle := (http1Step_posts hwf a).length_le
      simp only [postedHeaders, length_map, length_cons] at hlen
      omega
    · rintro (h | ⟨x, hx, -⟩)
      · simp at h
      · simp at hx

/-- One message alone in its buffer. -/
theorem parseHttp1_pipelined_alone : postedHeaders (http1Step {} (zeroArrival 3)).2 =
      [(zeroMessage 3).block.header ++ [0]] := by
  have hbuf : (zeroArrival 3).buf = ([zeroMessage 3].map Message.bytes).flatten := by
    simp [zeroArrival]
  exact (parseHttp1_pipelined wf_init rfl ⟨fun _ => rfl, fun _ => rfl⟩ hbuf).mpr
    (.inr ⟨zeroMessage 3, rfl, by decide, by decide⟩)

def pairArrival : Arrival :=
  { zeroArrival 0 with buf := (zeroMessage 0).bytes ++ (zeroMessage 0).bytes }

/-- The second of two messages in one buffer is lost. -/
theorem parseHttp1_pipelined_second_lost :
    pairArrival.buf = ([zeroMessage 0, zeroMessage 0].map Message.bytes).flatten ∧
      postedHeaders (http1Step {} pairArrival).2 ≠
        [zeroMessage 0, zeroMessage 0].map fun m => m.block.header ++ [0] := by
  refine ⟨by simp [pairArrival], fun h => ?_⟩
  have hlen := congrArg length h
  have hle := (http1Step_posts wf_init pairArrival).length_le
  simp only [postedHeaders, length_map, length_cons, length_nil] at hlen
  omega

end AppView.Http

import AppView.Http.Segmentation

/-!
# TLS and raw data in HTTP/1 headers

A call that writes to a TLS session is intercepted twice, with the text and with what is sent
for it. **`tls_separation`**: a header that is posted is cut out of the buffers of one kind
that came since the one that started it, one behind the other, and the event has the flag and
the id of these buffers.
-/

namespace AppView.Http

open AppView.Framework List

/-! ## Where the bytes of a header come from -/

def stretch (ssl : Bool) (as : List Arrival) : List UInt8 :=
  (as.filter fun a => a.httpId.isSsl = ssl).flatMap Arrival.buf

variable {ssl : Bool} {as : List Arrival} {a : Arrival} {rest : List UInt8} {p : ProtocolInfo}

theorem stretch_concat_same (h : a.httpId.isSsl = ssl) :
    stretch ssl (as ++ [a]) = stretch ssl as ++ a.buf := by
  simp [stretch, h]

theorem stretch_concat_other (h : a.httpId.isSsl ≠ ssl) :
    stretch ssl (as ++ [a]) = stretch ssl as := by
  simp [stretch, h]

def Collecting (past : List Arrival) (st : HttpState) : Prop :=
  st.state = .httpHdr ∨ st.state = .httpHdrEnd →
    ∃ earlier first later k, past = earlier ++ first :: later ∧ st.id = first.httpId ∧
      st.hdr = first.buf.drop k ++ stretch st.id.isSsl later

def OneKind (past : List Arrival) (p : ProtocolInfo) : Prop :=
  ∃ earlier first later k n, past = earlier ++ first :: later ∧
    p.data.hdr = (first.buf.drop k ++ stretch p.data.ssl later).take n ++ [0] ∧
    p.data.id = first.httpId ∧ p.data.ssl = first.httpId.isSsl ∧
    p.uid = first.httpId.uid ∧ p.fd = first.httpId.sockfd

/-! ## One buffer -/

theorem headerLoop_idle (env : HttpEnv) (fuel : ℕ) (st : HttpState) (rest : List UInt8) :
    headerLoop env fuel (setHttpState st .httpNone) rest = (setHttpState st .httpNone, none) := by
  cases fuel <;> simp [headerLoop, setHttpState]

variable {st : HttpState} {env : HttpEnv} {past : List Arrival}

theorem headerLoop_keeps (env : HttpEnv) {fuel : ℕ} (hfuel : rest.length < fuel)
    (hstate : st.state = .httpHdr ∨ st.state = .httpHdrEnd) :
    match headerLoop env fuel st rest with
    | (st', none) => st'.state = .httpNone ∨ st'.hdr = st.hdr ++ rest ∧ st'.id = st.id ∧
        (st'.state = .httpHdr ∨ st'.state = .httpHdrEnd)
    | (st', some rest') => st'.hdr ++ rest' = st.hdr ++ rest ∧ st'.id = st.id := by
  induction fuel generalizing st rest with
  | zero => omega
  | succ fuel ih =>
    by_cases hrest : rest = []
    · rw [headerLoop, if_neg fun h => h.2 hrest, hrest, append_nil]
      exact .inr ⟨rfl, rfl, hstate⟩
    rw [headerLoop, if_pos ⟨hstate, hrest⟩]
    cases hsearch : searchExec gHttpEnd rest (cInt rest.length) with
    | none =>
      rcases appendHeader_or env (setHttpState st .httpHdr) rest with happend | ⟨a, happend⟩
      · rw [happend]
        exact .inl rfl
      · rw [happend]
        exact .inr ⟨rfl, rfl, .inl rfl⟩
    | some headerEnd =>
      dsimp only
      split_ifs with hend
      · exact ⟨rfl, rfl⟩
      rcases appendHeader_or env (setHttpState st .httpHdrEnd)
        (rest.take (headerEnd + searchLen gHttpEnd)) with happend | ⟨a, happend⟩
      · have hnone : setHttpState (setHttpState st .httpHdrEnd) .httpNone =
            setHttpState st .httpNone := rfl
        rw [happend, hnone, headerLoop_idle]
        exact .inl rfl
      · have hlen : (rest.drop (headerEnd + searchLen gHttpEnd)).length < fuel := by
          have hpos : 0 < rest.length := length_pos_iff.2 hrest
          have htwo : searchLen gHttpEnd = 2 := rfl
          rw [length_drop]
          omega
        have hstate' : HttpState.state { setHttpState st .httpHdrEnd with
            hdr := (setHttpState st .httpHdrEnd).hdr ++ rest.take (headerEnd + searchLen gHttpEnd)
            hdralloc := a } = .httpHdrEnd := rfl
        have hnext := ih hlen (.inr hstate')
        have hbytes : (setHttpState st .httpHdrEnd).hdr ++
            rest.take (headerEnd + searchLen gHttpEnd) ++
              rest.drop (headerEnd + searchLen gHttpEnd) = st.hdr ++ rest := by
          rw [append_assoc, take_append_drop]
          rfl
        rw [happend]
        rw [hbytes] at hnext
        exact hnext

theorem reportHttp1_post (h : p ∈ (reportHttp1 env st).2) :
    p.data.hdr = st.hdr ∧ p.data.id = st.id ∧ p.data.ssl = st.id.isSsl ∧ p.uid = st.id.uid ∧
      p.fd = st.id.sockfd := by
  rw [reportHttp1] at h
  split_ifs at h with hhdr halloc
  · cases h
  · cases h
  all_goals
    rw [mem_singleton.1 h]
    exact ⟨rfl, rfl, rfl, rfl, rfl⟩

theorem reportHttp1_nil (h : st.hdr = []) : (reportHttp1 env st).2 = [] := by
  rw [reportHttp1, if_pos h]

theorem endOfHeaders_state (env : HttpEnv) (st : HttpState) (rest : List UInt8) :
    (endOfHeaders env st rest).1.state = .httpNone ∨
      (endOfHeaders env st rest).1.state = .httpData := by
  simp only [endOfHeaders]
  split
  · split_ifs
    · exact .inr rfl
    · exact .inl rfl
  · exact .inl rfl

theorem endOfHeaders_snd (env : HttpEnv) (st : HttpState) (rest : List UInt8) :
    (endOfHeaders env st rest).2 = (reportHttp1 env (examined env st)).2 := by
  simp only [endOfHeaders]
  split
  · split_ifs <;> rfl
  · rfl

theorem endOfHeaders_post (hp : p ∈ (endOfHeaders env st rest).2) :
    p.data.hdr = st.hdr ++ [0] ∧ p.data.id = st.id ∧ p.data.ssl = st.id.isSsl ∧
      p.uid = st.id.uid ∧ p.fd = st.id.sockfd := by
  rw [endOfHeaders_snd, examined] at hp
  rcases appendHeader_or env st [0] with happend | ⟨a, happend⟩
  · rw [happend, reportHttp1_nil rfl] at hp
    cases hp
  · rw [happend] at hp
    exact reportHttp1_post hp

theorem parseHeaders_separate {earlier later : List Arrival} {first : Arrival} {k : ℕ}
    {buf : List UInt8} (hstate : st.state = .httpHdr ∨ st.state = .httpHdrEnd)
    (hpast : past = earlier ++ first :: later) (hid : st.id = first.httpId)
    (hhdr : st.hdr ++ buf = first.buf.drop k ++ stretch st.id.isSsl later) :
    Collecting past (parseHeaders env st buf).state ∧
      ∀ p ∈ (parseHeaders env st buf).posts, OneKind past p := by
  have hloop := headerLoop_keeps env (Nat.lt_succ_self buf.length) hstate
  rw [parseHeaders]
  rcases hresult : headerLoop env (buf.length + 1) st buf with ⟨st', _ | rest⟩
  · rw [hresult] at hloop
    refine ⟨fun hin => ?_, fun p hp => absurd hp not_mem_nil⟩
    rcases hloop with hnone | ⟨hkept, hid', -⟩
    · rw [hnone] at hin
      rcases hin with hin | hin <;> cases hin
    · refine ⟨earlier, first, later, k, hpast, hid'.trans hid, ?_⟩
      rw [hkept, hhdr, hid']
  · rw [hresult] at hloop
    obtain ⟨hkept, hid'⟩ := hloop
    constructor
    · intro hin
      rcases endOfHeaders_state env st' rest with hend | hend <;> rw [hend] at hin <;>
        rcases hin with hin | hin <;> cases hin
    · intro p hp
      obtain ⟨hphdr, hpid, hpssl, hpuid, hpfd⟩ := endOfHeaders_post hp
      rw [hid'] at hpid hpssl hpuid hpfd
      refine ⟨earlier, first, later, k, st'.hdr.length, hpast, ?_, hid ▸ hpid, hid ▸ hpssl,
        hid ▸ hpuid, hid ▸ hpfd⟩
      rw [hphdr, hpssl, ← hhdr, ← hkept, take_left]

theorem not_collecting (h : st.state = .httpNone ∨ st.state = .httpData) : Collecting past st := by
  intro hin
  rcases h with h | h <;> rw [h] at hin <;> rcases hin with hin | hin <;> cases hin

theorem findHeaders_separate (hstate : st.state = .httpNone) (hhdr : st.hdr = [])
    (past : List Arrival) (a : Arrival) (k : ℕ) :
    Collecting (past ++ [a]) (findHeaders a.env st (a.buf.drop k) a.httpId).state ∧
      ∀ p ∈ (findHeaders a.env st (a.buf.drop k) a.httpId).posts, OneKind (past ++ [a]) p := by
  rw [findHeaders, if_pos hstate]
  split
  · exact ⟨not_collecting (.inl hstate), fun p hp => absurd hp not_mem_nil⟩
  · refine parseHeaders_separate (k := k) (.inl rfl) rfl rfl ?_
    simp [setHttpState, hhdr, stretch]

/-- **One buffer**: it goes on with a header of its kind, starts one, or is passed over. -/
theorem http1Step_separate (hwf : Wf st) (h : Collecting past st) (a : Arrival) :
    Collecting (past ++ [a]) (http1Step st a).1 ∧
      ∀ p ∈ (http1Step st a).2, OneKind (past ++ [a]) p := by
  simp only [http1Step, parseHttp1]
  by_cases hother : st.state ≠ .httpNone ∧ st.id.isSsl ≠ a.httpId.isSsl
  · rw [if_pos hother]
    refine ⟨fun hin => ?_, fun p hp => absurd hp not_mem_nil⟩
    obtain ⟨earlier, first, later, k, rfl, hid, hhdr⟩ := h hin
    refine ⟨earlier, first, later ++ [a], k, by simp, hid, ?_⟩
    rw [stretch_concat_other hother.2.symm]
    exact hhdr
  rw [if_neg hother]
  cases hstate : st.state with
  | httpData =>
    rw [if_pos rfl]
    split_ifs with hall
    · refine ⟨not_collecting (.inr ?_), fun p hp => absurd hp not_mem_nil⟩
      rw [bytesToSkipForContentLength]
      split_ifs <;> exact hstate
    · exact findHeaders_separate rfl rfl past a _
  | httpNone =>
    have hdrop : a.buf = a.buf.drop 0 := rfl
    rw [if_neg (by decide), hdrop]
    exact findHeaders_separate hstate (hwf.idle hstate).1 past a 0
  | httpHdr | httpHdrEnd =>
    have hin : st.state = .httpHdr ∨ st.state = .httpHdrEnd := by simp [hstate]
    have hne : ¬ st.state = .httpNone := by simp [hstate]
    have hsame : a.httpId.isSsl = st.id.isSsl := by
      by_contra hdiff
      exact hother ⟨hne, fun heq => hdiff heq.symm⟩
    obtain ⟨earlier, first, later, k, rfl, hid, hhdr⟩ := h hin
    have hpast : earlier ++ first :: later ++ [a] = earlier ++ first :: (later ++ [a]) := by simp
    rw [if_neg (by decide), findHeaders, if_neg hne]
    refine parseHeaders_separate (k := k) hin hpast hid ?_
    rw [stretch_concat_same hsame, hhdr, append_assoc]

/-! ## Every sequence of buffers -/

theorem http1Run_collecting (as : List Arrival) :
    Collecting as (run http1Step { version := 1 } as).1 := by
  have hwf : Wf { version := 1 } := ⟨Or.inl rfl, fun _ => ⟨rfl, rfl⟩⟩
  induction as using List.reverseRecOn with
  | nil => exact not_collecting (.inl rfl)
  | append_singleton as a ih =>
    rw [run_append]
    exact (http1Step_separate (http1Run_wf hwf as) ih a).1

structure Buffer where
  env : HttpEnv
  isSsl : Bool
  buf : List UInt8

def source : HttpDirection → Bool → MetricT
  | .httpTx, true => .tlstx
  | .httpTx, false => .nettx
  | .httpRx, true => .tlsrx
  | .httpRx, false => .netrx

theorem isSsl_source (net : NetInfo) (sockfd : ℤ) (d : HttpDirection) (ssl : Bool) :
    (setHttpId net sockfd (source d ssl)).isSsl = ssl := by
  cases d <;> cases ssl <;> rfl

def Buffer.arrival (net : NetInfo) (sockfd : ℤ) (d : HttpDirection) (b : Buffer) : Arrival :=
  ⟨b.env, some net, setHttpId net sockfd (source d b.isSsl), b.buf⟩

def bytesOf (ssl : Bool) (buffers : List Buffer) : List UInt8 :=
  (buffers.filter fun b => b.isSsl = ssl).flatMap Buffer.buf

theorem stretch_arrivals (net : NetInfo) (sockfd : ℤ) (d : HttpDirection) (ssl : Bool)
    (buffers : List Buffer) :
    stretch ssl (buffers.map (Buffer.arrival net sockfd d)) = bytesOf ssl buffers := by
  rw [stretch, filter_map, flatMap_map]
  have hfilter : ((fun a : Arrival => decide (a.httpId.isSsl = ssl)) ∘
      Buffer.arrival net sockfd d) = fun b => decide (b.isSsl = ssl) := by
    funext b
    simp [Buffer.arrival, isSsl_source]
  rw [hfilter]
  rfl

/-- **TLS and raw data never mix in a header**: whatever buffers came on this direction, a header
that the next one completes is cut out of those of one kind since the one that started it, and the
event has their flag and the id of their connection. -/
theorem tls_separation (net : NetInfo) (sockfd : ℤ) (d : HttpDirection) (buffers : List Buffer)
    (b : Buffer) (p : ProtocolInfo) (hp : p ∈ (http1Step (run http1Step { version := 1 }
      (buffers.map (Buffer.arrival net sockfd d))).1 (b.arrival net sockfd d)).2) :
    ∃ earlier first later k n, buffers ++ [b] = earlier ++ first :: later ∧
      first.isSsl = p.data.ssl ∧
      p.data.hdr = (first.buf.drop k ++ bytesOf p.data.ssl later).take n ++ [0] ∧
      p.data.id = setHttpId net sockfd (source d p.data.ssl) ∧ p.uid = net.uid ∧
      p.fd = sockfd := by
  have hwf : Wf { version := 1 } := ⟨Or.inl rfl, fun _ => ⟨rfl, rfl⟩⟩
  obtain ⟨earlier, first, later, k, n, hsplit, hhdr, hid, hssl, huid, hfd⟩ :=
    (http1Step_separate (http1Run_wf hwf _) (http1Run_collecting _) _).2 p hp
  -- the same split of the buffers
  rw [← map_singleton, ← map_append, map_eq_append_iff] at hsplit
  obtain ⟨earlier, rest, hbuffers, -, hrest⟩ := hsplit
  obtain ⟨first, later, rfl, rfl, rfl⟩ := map_eq_cons_iff.1 hrest
  rw [stretch_arrivals] at hhdr
  have hkind : first.isSsl = p.data.ssl := by
    rw [hssl]
    exact (isSsl_source net sockfd d first.isSsl).symm
  refine ⟨earlier, first, later, k, n, hbuffers, hkind, hhdr, ?_, huid, hfd⟩
  rw [hid, ← hkind]
  rfl

/-- A decrypted response in two buffers, with raw data between them. -/
theorem tls_separation_mixed :
    let buffers : List Buffer := [⟨.idle, true, shortResponse.start⟩, ⟨.idle, false, httpStart⟩]
    let b : Buffer := ⟨.idle, true, httpEnd ++ encode shortResponse.lines ++ httpEnd⟩
    ∃ p ∈ (http1Step (run http1Step { version := 1 }
        (buffers.map (Buffer.arrival {} 3 .httpRx))).1 (b.arrival {} 3 .httpRx)).2,
      p.data.hdr = shortResponse.header ++ [0] ∧
      ∃ earlier first later k n, buffers ++ [b] = earlier ++ first :: later ∧
        first.isSsl = p.data.ssl ∧
        p.data.hdr = (first.buf.drop k ++ bytesOf p.data.ssl later).take n ++ [0] ∧
        p.data.id = setHttpId {} 3 (source .httpRx p.data.ssl) ∧ p.uid = 0 ∧ p.fd = 3 := by
  intro buffers b
  have hposts : (http1Step (run http1Step { version := 1 }
      (buffers.map (Buffer.arrival {} 3 .httpRx))).1 (b.arrival {} 3 .httpRx)).2.map
        (fun p => p.data.hdr) = [shortResponse.header ++ [0]] := by
    decide +kernel
  obtain ⟨p, hp, hhdr⟩ := mem_map.1 (hposts ▸ mem_singleton_self _)
  exact ⟨p, hp, hhdr, tls_separation {} 3 .httpRx buffers b p hp⟩

end AppView.Http

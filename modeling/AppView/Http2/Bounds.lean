import AppView.Framework.Accesses
import AppView.Http2.Block

/-!
# What `doHttp2Frame` reads of a frame

The frame is posted with its length, and its bytes lie in a memory that goes on behind them.
-/

namespace AppView.Http2

open AppView.Framework List Reads

/-! ## The reads -/

inductive FrameUse where
  | byte
  | log
  | decoder
  deriving DecidableEq, Repr

abbrev FrameReads := Reads FrameUse UInt8

def readByte (i : ℕ) : FrameReads UInt8 := .read ⟨.byte, i, 1⟩ fun bs => .done (bs.headD 0)

def hand (use : FrameUse) (start len : ℕ) : FrameReads Bytes := .read ⟨use, start, len⟩ .done

def readStream (i : ℕ) : FrameReads ℕ := do
  let b₀ ← readByte i
  let b₁ ← readByte (i + 1)
  let b₂ ← readByte (i + 2)
  let b₃ ← readByte (i + 3)
  return (b₀.toNat % 128) * 2 ^ 24 + b₁.toNat * 2 ^ 16 + b₂.toNat * 2 ^ 8 + b₃.toNat

def readFixed : FrameReads Header := do
  let b₀ ← readByte 0
  let b₁ ← readByte 1
  let b₂ ← readByte 2
  let fType ← readByte 3
  let fFlags ← readByte 4
  let fStream ← readStream 5
  return ⟨b₀.toNat * 2 ^ 16 + b₁.toNat * 2 ^ 8 + b₂.toNat, fType.toNat, fFlags, fStream⟩

def readPromise (h : Header) : FrameReads Header :=
  if h.fType = 0x05 then do
    let fStream ← readStream (if h.padded then 10 else 9)
    return { h with fStream }
  else return h

def readHeader (len : ℕ) : FrameReads (Option Header) :=
  if len < 9 then do
    let _ ← hand .log 0 len
    return none
  else do
    let h ← readFixed
    if len ≠ 9 + h.fLen then do
      let _ ← hand .log 0 len
      return none
    else do
      let h ← readPromise h
      return some h

def readPad (h : Header) : FrameReads ℕ :=
  if h.padded then do
    let pad ← readByte 9
    return pad.toNat
  else pure 0

def Header.decPos (h : Header) : ℕ :=
  9 + (if h.padded then 1 else 0) + (if h.priority then 5 else 0) +
    (if h.fType = 0x05 then 4 else 0)

def Header.decEnd (h : Header) (pad : ℕ) : ℤ := 9 + h.fLen - pad

def readBlock (huff : Bytes → Option Bytes) (len : ℕ) (decEnd : ℤ) :
    ℕ → Dec → ℕ → FrameReads (Dec × List Field)
  | 0, d, _ => pure (d, [])
  | fuel + 1, d, decPos =>
    if decPos < decEnd then do
      let s ← hand .decoder decPos (decEnd - decPos).toNat
      match decode huff d s with
      | (d', none) => do
        let _ ← hand .log 0 len
        let _ ← hand .log decPos (decEnd - decPos).toNat
        return (d', [])
      | (d', some (f, rest)) => do
        let r ← readBlock huff len decEnd fuel d' (decPos + (s.length - rest.length))
        return (r.1, f :: r.2)
    else pure (d, [])

def doHttp2FrameAt (huff : Bytes → Option Bytes) (fl : Filters) (channel : Option Channel)
    (p : Proto) : FrameReads (Option Channel × List Field × Option Event) := do
  let h ← readHeader p.frame.length
  match h with
  | none => return (channel, [], none)
  | some h =>
    if h.hasBlock then do
      let ch := channel.getD Channel.new
      let pad ← readPad h
      let r ← readBlock huff p.frame.length (h.decEnd pad) h.fLen ch.decoder h.decPos
      return finishFrame fl ch p h r
    else return (channel, [], none)

variable {mem : FrameUse → ℕ → UInt8}

@[simp] theorem run_readByte (i : ℕ) : (readByte i).run mem = mem .byte i := rfl

@[simp] theorem run_hand (use : FrameUse) (start len : ℕ) :
    (hand use start len).run mem = Access.contents mem ⟨use, start, len⟩ := rfl

section Keeps

variable {P : Access FrameUse → Prop}

@[simp] theorem keeps_readByte (i : ℕ) : (readByte i).Keeps mem P ↔ P ⟨.byte, i, 1⟩ := by
  simp [Reads.Keeps, readByte, accesses]

@[simp] theorem keeps_hand (use : FrameUse) (start len : ℕ) :
    (hand use start len).Keeps mem P ↔ P ⟨use, start, len⟩ := by
  simp [Reads.Keeps, hand, accesses]

end Keeps

/-! ## A frame with nothing behind it -/

def bare (frame : Bytes) : FrameUse → ℕ → UInt8 := fun _ i => frame.getD i 0

variable (frame : Bytes)

theorem holds_bare (use : FrameUse) : Holds (bare frame) use frame :=
  holds_getD frame 0 use

theorem run_readStream (i : ℕ) (frame : Bytes) :
    (readStream i).run (bare frame) = streamAt frame i := by
  simp [readStream, streamAt, byteAt, bare]

def fixedHeader (frame : Bytes) : Header :=
  ⟨byteAt frame 0 * 2 ^ 16 + byteAt frame 1 * 2 ^ 8 + byteAt frame 2, byteAt frame 3,
    frame.getD 4 0, streamAt frame 5⟩

theorem run_readFixed : readFixed.run (bare frame) = fixedHeader frame := rfl

theorem run_readPromise (h : Header) (mem : FrameUse → ℕ → UInt8) :
    ∃ fStream, (readPromise h).run mem = { h with fStream } := by
  unfold readPromise
  split
  · rw [run_bind, run_pure]
    exact ⟨_, rfl⟩
  · exact ⟨h.fStream, rfl⟩

theorem frameHeader_eq : frameHeader frame =
      if frame.length < 9 then none
      else if frame.length ≠ 9 + (fixedHeader frame).fLen then none
      else some ((readPromise (fixedHeader frame)).run (bare frame)) := by
  refine ite_congr rfl (fun _ => rfl) fun _ => ite_congr rfl (fun _ => rfl) fun _ => ?_
  change some (Header.mk _ _ _ (if byteAt frame 3 = 0x05 then _ else _)) =
    some (Reads.run _ (if byteAt frame 3 = 0x05 then _ else _))
  by_cases hpush : byteAt frame 3 = 0x05
  · rw [if_pos hpush, if_pos hpush, run_bind, run_pure, run_readStream]
    rfl
  · rw [if_neg hpush, if_neg hpush, run_pure]
    rfl

theorem run_readHeader : (readHeader frame.length).run (bare frame) = frameHeader frame := by
  rw [readHeader, frameHeader_eq]
  by_cases hrunt : frame.length < 9
  · rw [if_pos hrunt, if_pos hrunt, run_bind, run_pure]
  · rw [if_neg hrunt, if_neg hrunt, run_bind, run_readFixed]
    by_cases hsize : frame.length ≠ 9 + (fixedHeader frame).fLen
    · rw [if_pos hsize, if_pos hsize, run_bind, run_pure]
    · rw [if_neg hsize, if_neg hsize, run_bind, run_pure]

theorem decode_suffix {huff : Bytes → Option Bytes} {d d' : Dec} {s r : Bytes} {f : Field}
    (h : decode huff d s = (d', some (f, r))) : r <:+ s := by
  obtain ⟨d₁, t, rep, hup, hrep, -⟩ := decode_eq_some.1 h
  exact (readRep_local.rest hrep).trans (readUpdates_rest hup)

theorem run_readBlock (huff : Bytes → Option Bytes) (len : ℕ) (decEnd : ℤ) (fuel : ℕ) (d : Dec)
    (decPos : ℕ) (hfuel : decEnd - decPos ≤ fuel) :
    (readBlock huff len decEnd fuel d decPos).run mem = decodeBlock huff d
      (Access.contents mem ⟨.decoder, decPos, (decEnd - decPos).toNat⟩) := by
  induction fuel generalizing d decPos with
  | zero =>
    rw [show (decEnd - decPos).toNat = 0 by omega]
    exact (decodeBlock_nil d).symm
  | succ fuel ih =>
    rw [readBlock]
    split_ifs with hmore
    · rw [run_bind, run_hand]
      generalize hs : Access.contents mem ⟨.decoder, decPos, (decEnd - decPos).toNat⟩ = s
      have hlen : s.length = (decEnd - decPos).toNat := by
        rw [← hs, Access.length_contents]
      have hne : s ≠ [] := by
        rintro rfl
        rw [length_nil] at hlen
        omega
      rcases hd : decode huff d s with ⟨d', _ | ⟨f, rest⟩⟩
      · rw [decodeBlock_of_none hne hd]
        simp [run_bind, run_pure]
      · have hlt := decode_lt hd
        -- what is left is the stretch from the new `decPos` on
        have hrest : Access.contents mem ⟨.decoder, decPos + (s.length - rest.length),
            (decEnd - (decPos + (s.length - rest.length) : ℕ)).toNat⟩ = rest := by
          rw [show (decEnd - (decPos + (s.length - rest.length) : ℕ)).toNat =
              (decEnd - decPos).toNat - (s.length - rest.length) by omega,
            ← Access.drop_contents, hs]
          exact ((suffix_iff_eq_drop).1 (decode_suffix hd)).symm
        simp only [run_bind, run_pure]
        rw [decodeBlock_of_some hne hd, ih _ _ (by omega), hrest]
    · rw [show (decEnd - decPos).toNat = 0 by omega]
      exact (decodeBlock_nil d).symm

theorem run_readPad (h : Header) (frame : Bytes) :
    (readPad h).run (bare frame) = if h.padded then byteAt frame 9 else 0 := by
  unfold readPad
  split_ifs with hpad
  · rw [run_bind, run_pure]
    rfl
  · rw [run_pure]

variable {frame : Bytes} {h : Header}

theorem frameHeader_eq_some (hh : frameHeader frame = some h) :
    ¬ frame.length < 9 ∧ ¬ frame.length ≠ 9 + (fixedHeader frame).fLen ∧
      ∃ fStream, h = { fixedHeader frame with fStream } := by
  rw [frameHeader_eq] at hh
  split_ifs at hh with hrunt hsize
  cases hh
  exact ⟨hrunt, hsize, run_readPromise _ _⟩

theorem frameHeader_length (hh : frameHeader frame = some h) : frame.length = 9 + h.fLen := by
  obtain ⟨-, hsize, fStream, rfl⟩ := frameHeader_eq_some hh
  exact not_not.1 hsize

theorem contents_headerData (hlen : frame.length = 9 + h.fLen) {pad : ℕ}
    (hpad : pad = if h.padded then byteAt frame 9 else 0) :
    Access.contents (bare frame) ⟨.decoder, h.decPos, (h.decEnd pad - h.decPos).toNat⟩ =
      headerData h frame := by
  have hdata : headerData h frame = (frame.take (9 + h.fLen - pad)).drop h.decPos := by
    rw [hpad]
    rfl
  have hend : h.decEnd pad = 9 + h.fLen - pad := rfl
  rw [hdata]
  by_cases hmore : (h.decPos : ℤ) < h.decEnd pad
  · have hbelow : Access.Below frame.length
        (⟨.decoder, h.decPos, (h.decEnd pad - h.decPos).toNat⟩ : Access FrameUse) := by
      show h.decPos + (h.decEnd pad - h.decPos).toNat ≤ frame.length
      omega
    rw [(holds_bare frame .decoder).contents hbelow, drop_take]
    congr 1
    show (h.decEnd pad - h.decPos).toNat = _
    omega
  · rw [show (h.decEnd pad - h.decPos).toNat = 0 by omega]
    refine (drop_eq_nil_of_le ?_).symm
    rw [length_take]
    omega

/-- **Over a frame with nothing behind it, the function with its reads is the function.** -/
theorem run_doHttp2FrameAt (huff : Bytes → Option Bytes) (fl : Filters)
    (channel : Option Channel) (p : Proto) :
    (doHttp2FrameAt huff fl channel p).run (bare p.frame) = doHttp2Frame huff fl channel p := by
  rw [doHttp2FrameAt, run_bind, run_readHeader, doHttp2Frame]
  rcases hh : frameHeader p.frame with _ | h
  · rfl
  · have hlen := frameHeader_length hh
    dsimp only
    by_cases hblock : h.hasBlock
    · rw [if_pos hblock, if_pos hblock, run_bind, run_bind, run_pure,
        run_readBlock, contents_headerData hlen (run_readPad h p.frame)]
      · rfl
      · rw [Header.decEnd, Header.decPos]
        omega
    · rw [if_neg hblock, if_neg hblock, run_pure]

/-! ## Where it reads -/

def Header.Complete (h : Header) : Prop :=
  (h.fType = 0x05 → (if h.padded then 5 else 4) ≤ h.fLen) ∧
    (h.hasBlock → h.padded → 1 ≤ h.fLen)

instance (h : Header) : Decidable h.Complete := inferInstanceAs (Decidable (_ ∧ _))

section Reading

variable {P : Access FrameUse → Prop}

theorem keeps_readStream (i : ℕ) : (readStream i).Keeps mem P ↔
    P ⟨.byte, i, 1⟩ ∧ P ⟨.byte, i + 1, 1⟩ ∧ P ⟨.byte, i + 2, 1⟩ ∧ P ⟨.byte, i + 3, 1⟩ := by
  simp [readStream]

theorem keeps_readFixed : readFixed.Keeps mem (Access.Below 9) := by
  have hlist : readFixed.accesses mem = (List.range 9).map fun i => ⟨.byte, i, 1⟩ := rfl
  intro a ha
  rw [hlist, mem_map] at ha
  obtain ⟨i, hi, rfl⟩ := ha
  exact mem_range.1 hi

theorem keeps_readBlock (huff : Bytes → Option Bytes) {len : ℕ} {decEnd : ℤ}
    (hend : decEnd ≤ len) (fuel : ℕ) (d : Dec) (decPos : ℕ) :
    (readBlock huff len decEnd fuel d decPos).Keeps mem (Access.Below len) := by
  induction fuel generalizing d decPos with
  | zero => exact keeps_pure _
  | succ fuel ih =>
    rw [readBlock]
    by_cases hmore : (decPos : ℤ) < decEnd
    · have hrange (use : FrameUse) : Access.Below len ⟨use, decPos, (decEnd - decPos).toNat⟩ := by
        show decPos + (decEnd - decPos).toNat ≤ len
        omega
      rw [if_pos hmore, keeps_bind, keeps_hand]
      refine ⟨hrange .decoder, ?_⟩
      split
      · rw [keeps_bind, keeps_bind, keeps_hand, keeps_hand]
        exact ⟨Nat.le_of_eq (Nat.zero_add len), hrange .log, keeps_pure _⟩
      · rw [keeps_bind]
        exact ⟨ih _ _, keeps_pure _⟩
    · rw [if_neg hmore]
      exact keeps_pure _

theorem keeps_readPromise (h : Header) (size : ℕ) : (readPromise h).Keeps mem (Access.Below size) ↔
      (h.fType = 0x05 → (if h.padded then 14 else 13) ≤ size) := by
  unfold readPromise
  by_cases hpush : h.fType = 0x05
  · rw [if_pos hpush, keeps_bind, keeps_readStream]
    simp only [Access.Below, keeps_pure, and_true, hpush, forall_const]
    split_ifs with hpad
    · omega
    · omega
  · rw [if_neg hpush]
    simp [hpush]

theorem keeps_readPad (h : Header) (size : ℕ) :
    (readPad h).Keeps mem (Access.Below size) ↔ (h.padded → 10 ≤ size) := by
  unfold readPad
  split_ifs with hpad
  · rw [keeps_bind, keeps_readByte]
    simp [hpad, Access.Below]
  · simp [hpad]

theorem keeps_of_other (hP : ∀ a, a.object ≠ .decoder → P a) (h : Header) :
    readFixed.Keeps mem P ∧ (readPromise h).Keeps mem P ∧ (readPad h).Keeps mem P := by
  have hbyte (i : ℕ) : P ⟨.byte, i, 1⟩ := hP _ (by simp)
  refine ⟨?_, ?_, ?_⟩
  · simp [readFixed, keeps_readStream, hbyte]
  · unfold readPromise
    split
    · simp [keeps_readStream, hbyte]
    · exact keeps_pure h
  · unfold readPad
    split
    · simp [hbyte]
    · exact keeps_pure 0

theorem keeps_doHttp2FrameAt {huff : Bytes → Option Bytes} {fl : Filters}
    {channel : Option Channel} {p : Proto} (hmem : ∀ use, Holds mem use p.frame)
    (hh : frameHeader p.frame = some h) : (doHttp2FrameAt huff fl channel p).Keeps mem P ↔
      (readFixed.Keeps mem P ∧ (readPromise (fixedHeader p.frame)).Keeps mem P) ∧
        (h.hasBlock → (readPad h).Keeps mem P ∧
          (readBlock huff p.frame.length (h.decEnd ((readPad h).run mem)) h.fLen
            (channel.getD Channel.new).decoder h.decPos).Keeps mem P) := by
  obtain ⟨hrunt, hsize, fStream, rfl⟩ := frameHeader_eq_some hh
  have hfixed : readFixed.run mem = fixedHeader p.frame :=
    run_eq_of_holds (holds_bare p.frame) hmem (keeps_readFixed.imp fun a (ha : _ ≤ 9) => by
      show a.start + a.len ≤ _
      omega)
  obtain ⟨fStream', hpromise⟩ := run_readPromise (fixedHeader p.frame) mem
  rw [doHttp2FrameAt, keeps_bind, readHeader, if_neg hrunt, keeps_bind,
    run_bind, hfixed, if_neg hsize, keeps_bind, run_bind, hpromise,
    run_pure]
  simp only [keeps_pure, and_true]
  refine and_congr_right fun _ => ?_
  split_ifs with hblock
  · rw [keeps_bind, keeps_bind]
    simp only [keeps_pure, and_true]
    exact ⟨fun hreads _ => hreads, fun hreads => hreads hblock⟩
  · exact iff_of_true (keeps_pure _) fun hb => absurd hb hblock

end Reading

theorem complete_iff {size : ℕ} (hsize : size = 9 + h.fLen) :
    h.Complete ↔ (h.fType = 0x05 → (if h.padded then 14 else 13) ≤ size) ∧
      (h.hasBlock → h.padded → 10 ≤ size) := by
  refine and_congr (imp_congr_right fun _ => ?_) (imp_congr_right fun _ =>
    imp_congr_right fun _ => by omega)
  split_ifs with hpad
  · omega
  · omega

theorem Header.decEnd_le (h : Header) (pad : ℕ) : h.decEnd pad ≤ (9 + h.fLen : ℕ) := by
  unfold Header.decEnd
  omega

/-- **The reads of a frame that is accepted.** Every range handed to the decoder lies
inside the frame. Every other byte that is read does so exactly if the payload has the
stream of a PUSH_PROMISE and the pad length; then what lies behind the frame has no part in
what the function does. -/
theorem frame_reads (huff : Bytes → Option Bytes) (fl : Filters) (channel : Option Channel)
    (p : Proto) (h : Header) (mem : FrameUse → ℕ → UInt8) (hmem : ∀ use, Holds mem use p.frame)
    (haccepted : frameHeader p.frame = some h) :
    (∀ a ∈ (doHttp2FrameAt huff fl channel p).accesses mem,
      a.object = .decoder → a.Below p.frame.length) ∧
    ((∀ a ∈ (doHttp2FrameAt huff fl channel p).accesses mem, a.Below p.frame.length) ↔ h.Complete) ∧
    (h.Complete → (doHttp2FrameAt huff fl channel p).run mem = doHttp2Frame huff fl channel p) := by
  have hlen := frameHeader_length haccepted
  have hloop (pad : ℕ) : (readBlock huff p.frame.length (h.decEnd pad) h.fLen
      (channel.getD Channel.new).decoder h.decPos).Keeps mem (Access.Below p.frame.length) :=
    keeps_readBlock huff (hlen ▸ h.decEnd_le pad) _ _ _
  have hinside : (doHttp2FrameAt huff fl channel p).Keeps mem (Access.Below p.frame.length) ↔
      h.Complete := by
    obtain ⟨-, -, fStream, hfixed⟩ := frameHeader_eq_some haccepted
    have hnine : readFixed.Keeps mem (Access.Below p.frame.length) :=
      keeps_readFixed.imp fun a (ha : _ ≤ 9) => by
        show a.start + a.len ≤ _
        omega
    rw [keeps_doHttp2FrameAt hmem haccepted, complete_iff hlen]
    refine and_congr ?_ (imp_congr_right fun _ => ?_)
    · rw [hfixed]
      exact (and_iff_right hnine).trans (keeps_readPromise _ _)
    · exact (and_iff_left (hloop _)).trans (keeps_readPad h _)
  refine ⟨?_, hinside, fun hcomplete => ?_⟩
  · have hother := @keeps_of_other mem
      (fun a => a.object = .decoder → a.Below p.frame.length) (fun a ha hd => absurd hd ha)
    exact (keeps_doHttp2FrameAt hmem haccepted).2 ⟨⟨(hother h).1, (hother _).2.1⟩,
        fun _ => ⟨(hother h).2.2, (hloop _).imp fun a ha _ => ha⟩⟩
  · rw [← run_doHttp2FrameAt]
    exact (run_eq_of_holds hmem (holds_bare p.frame) (hinside.2 hcomplete)).symm

def paddedPromise : Bytes := mkFrame 0x05 0x0c 1 [1, 0, 0, 0, 2, 0x82, 0]

def followed (frame : Bytes) (next : UInt8) : FrameUse → ℕ → UInt8 := fun _ i => frame.getD i next

theorem frame_reads_promise :
    (∀ a ∈ (doHttp2FrameAt plainHuff allFields none (posted false paddedPromise)).accesses
        (followed paddedPromise 0xff), a.object = .decoder → a.Below 16) ∧
    ((∀ a ∈ (doHttp2FrameAt plainHuff allFields none (posted false paddedPromise)).accesses
        (followed paddedPromise 0xff), a.Below 16) ↔ Header.Complete ⟨7, 0x05, 0x0c, 2⟩) ∧
    (Header.Complete ⟨7, 0x05, 0x0c, 2⟩ →
      (doHttp2FrameAt plainHuff allFields none (posted false paddedPromise)).run
          (followed paddedPromise 0xff) =
        doHttp2Frame plainHuff allFields none (posted false paddedPromise)) ∧
    Header.Complete ⟨7, 0x05, 0x0c, 2⟩ := by
  obtain ⟨hdec, hall, hrun⟩ := frame_reads plainHuff allFields none
    (posted false paddedPromise) ⟨7, 0x05, 0x0c, 2⟩ (followed paddedPromise 0xff)
    (holds_getD paddedPromise 0xff) (by decide)
  exact ⟨hdec, hall, hrun, by decide⟩

/-- HEADERS with PADDED and no payload: the pad length is read behind the frame. So is the
stream of a PUSH_PROMISE without payload. -/
theorem frame_reads_outside : (frameHeader (mkFrame 0x01 0x0c 1 [])).isSome ∧
    ⟨.byte, 9, 1⟩ ∈ (doHttp2FrameAt plainHuff allFields none
      (posted false (mkFrame 0x01 0x0c 1 []))).accesses (bare (mkFrame 0x01 0x0c 1 [])) ∧
    (frameHeader (mkFrame 0x05 0x04 1 [])).isSome ∧
    ⟨.byte, 12, 1⟩ ∈ (doHttp2FrameAt plainHuff allFields none
      (posted false (mkFrame 0x05 0x04 1 []))).accesses (bare (mkFrame 0x05 0x04 1 [])) ∧
    (mkFrame 0x01 0x0c 1 []).length = 9 ∧ (mkFrame 0x05 0x04 1 []).length = 9 := by
  refine ⟨by decide, ?_, by decide, ?_, by decide, by decide⟩
  · decide
  · decide

end AppView.Http2

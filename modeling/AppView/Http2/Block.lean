import AppView.Http2.Frame

/-!
# What a header block stands for

A block is a sequence of size updates and representations of header fields. `ReadsTo` follows a
decoder through it, one of them after another.
-/

namespace AppView.Http2

open AppView.Framework List

variable {huff : Bytes → Option Bytes}

inductive ReadsTo (huff : Bytes → Option Bytes) :
    Dec → Bytes → List Field → Dec → Bytes → Prop where
  | here (d : Dec) (s : Bytes) : ReadsTo huff d s [] d s
  | update {d d' : Dec} {c : UInt8} {s t r : Bytes} {n : ℕ} {fs : List Field}
      (hc : c &&& 0xe0 = 0x20) (hint : decInt 5 (c :: s) = some (n, t))
      (hmax : n ≤ d.maxCapacity) (next : ReadsTo huff (d.updateMaxCapacity n) t fs d' r) :
      ReadsTo huff d (c :: s) fs d' r
  | field {d d₁ d' : Dec} {c : UInt8} {s t r : Bytes} {rep : Rep} {f : Field}
      {fs : List Field} (hc : ¬ c &&& 0xe0 = 0x20)
      (hrep : readRep huff (c :: s) = some (rep, t)) (happ : d.apply rep = some (f, d₁))
      (next : ReadsTo huff d₁ t fs d' r) : ReadsTo huff d (c :: s) (f :: fs) d' r

variable {d d' : Dec} {s r : Bytes} {fs : List Field}

theorem ReadsTo.rest (h : ReadsTo huff d s fs d' r) : r <:+ s := by
  induction h with
  | here d s => exact suffix_rfl
  | update hc hint hmax next ih => exact ih.trans ((decInt_local 5).rest hint)
  | field hc hrep happ next ih => exact ih.trans (readRep_local.rest hrep)

variable {t payload : Bytes} {f : Field} {n fStream : ℕ} {fType fFlags : UInt8}

theorem ReadsTo.trans {d₁ : Dec} {gs : List Field} (h : ReadsTo huff d s fs d₁ t)
    (h' : ReadsTo huff d₁ t gs d' r) : ReadsTo huff d s (fs ++ gs) d' r := by
  induction h with
  | here d s => exact h'
  | update hc hint hmax next ih => exact .update hc hint hmax (ih h')
  | field hc hrep happ next ih => exact .field hc hrep happ (ih h')

theorem ReadsTo.cut {b : Bytes} (h : ReadsTo huff d (s ++ b) fs d' b) :
    ReadsTo huff d s fs d' [] := by
  generalize hw : s ++ b = w at h
  induction h generalizing s with
  | here d w =>
    obtain rfl : s = [] := append_left_eq_self.1 hw
    exact .here d []
  | @update d d' c w t r n fs hc hint hmax next ih =>
    obtain ⟨a, rfl⟩ := next.rest
    cases s with
    | nil =>
      -- the update is not behind the place it leads to
      obtain rfl : r = c :: w := hw
      exact absurd hint (decInt_strict 5).ne_append
    | cons c' s =>
      obtain ⟨rfl, rfl⟩ : c' = c ∧ s ++ r = w := by simpa using hw
      exact .update hc ((decInt_local 5).cut (s := c' :: s) hint) hmax (ih rfl)
  | @field d d₁ d' c w t r rep f fs hc hrep happ next ih =>
    obtain ⟨a, rfl⟩ := next.rest
    cases s with
    | nil =>
      obtain rfl : r = c :: w := hw
      exact absurd hrep readRep_strict.ne_append
    | cons c' s =>
      obtain ⟨rfl, rfl⟩ : c' = c ∧ s ++ r = w := by simpa using hw
      exact .field hc (readRep_local.cut (s := c' :: s) hrep) happ (ih rfl)

theorem decodeBlock_nil (d : Dec) : decodeBlock huff d [] = (d, []) := by
  rw [decodeBlock, if_pos rfl]

theorem decodeBlock_of_none (hs : s ≠ []) (h : decode huff d s = (d', none)) :
    decodeBlock huff d s = (d', []) := by
  rw [decodeBlock, if_neg hs]
  split
  · rename_i hd
    rw [h] at hd
    cases hd
    rfl
  · rename_i hd
    rw [h] at hd
    cases hd

theorem decodeBlock_of_some (hs : s ≠ []) (h : decode huff d s = (d', some (f, r))) :
    decodeBlock huff d s = ((decodeBlock huff d' r).1, f :: (decodeBlock huff d' r).2) := by
  rw [decodeBlock, if_neg hs]
  split
  · rename_i hd
    rw [h] at hd
    cases hd
  · rename_i hd
    rw [h] at hd
    cases hd
    rfl

theorem decodeBlock_update {c : UInt8} (hc : c &&& 0xe0 = 0x20)
    (hint : decInt 5 (c :: s) = some (n, t)) (hmax : n ≤ d.maxCapacity) :
    decodeBlock huff d (c :: s) = decodeBlock huff (d.updateMaxCapacity n) t := by
  have hsame : decode huff d (c :: s) = decode huff (d.updateMaxCapacity n) t := by
    unfold decode
    rw [readUpdates_of_update hc hint hmax]
  cases t with
  | nil =>
    -- the decoder fails for want of a field, and keeps the size
    have hnone : decode huff (d.updateMaxCapacity n) [] = (d.updateMaxCapacity n, none) := by
      simp [decode, readUpdates]
    rw [decodeBlock_nil, decodeBlock_of_none (by simp) (hsame.trans hnone)]
  | cons b t =>
    rcases hd : decode huff (d.updateMaxCapacity n) (b :: t) with ⟨d', _ | ⟨f, r⟩⟩
    · rw [decodeBlock_of_none (by simp) (hsame.trans hd), decodeBlock_of_none (by simp) hd]
    · rw [decodeBlock_of_some (by simp) (hsame.trans hd), decodeBlock_of_some (by simp) hd]

/-- **The loop decodes what the block stands for.** -/
theorem ReadsTo.decodeBlock_eq (h : ReadsTo huff d s fs d' []) :
    decodeBlock huff d s = (d', fs) := by
  generalize hr : ([] : Bytes) = r at h
  induction h with
  | here d s => rw [← hr, decodeBlock_nil]
  | update hc hint hmax next ih => rw [decodeBlock_update hc hint hmax, ih hr]
  | field hc hrep happ next ih =>
    have hdec := decode_eq_some.2 ⟨_, _, _, readUpdates_of_field hc, hrep, happ⟩
    rw [decodeBlock_of_some (by simp) hdec, ih hr]

theorem maxCapacity_apply {rep : Rep} (h : d.apply rep = some (f, d')) :
    d'.maxCapacity = d.maxCapacity := by
  cases rep with
  | indexed index =>
    obtain ⟨g, -, hg⟩ := Option.bind_eq_some_iff.1 h
    split_ifs at hg
    cases hg
    rfl
  | literal add index name value =>
    obtain ⟨n, -, hn⟩ := Option.bind_eq_some_iff.1 h
    split_ifs at hn <;> cases hn <;> rfl

theorem ReadsTo.maxCapacity (h : ReadsTo huff d s fs d' r) : d'.maxCapacity = d.maxCapacity := by
  induction h with
  | here d s => rfl
  | update hc hint hmax next ih => exact ih
  | field hc hrep happ next ih => exact ih.trans (maxCapacity_apply happ)

/-! ## What a frame can do -/

def finishFrame (fl : Filters) (ch : Channel) (p : Proto) (h : Header)
    (r : Dec × List Field) : Option Channel × List Field × Option Event :=
  let s := r.2.foldl (doField fl h p.startDuration)
    ((ch.streams h.fStream).getD Stream.new).opened
  let out := if h.endHeaders then endHeaders fl p s else (s, none)
  (some ⟨r.1, Function.update ch.streams h.fStream (some out.1)⟩, r.2, out.2)

theorem doHttp2Frame_cases (huff : Bytes → Option Bytes) (fl : Filters)
    (channel : Option Channel) (p : Proto) : ((∀ h, frameHeader p.frame = some h → ¬ h.hasBlock) ∧
        doHttp2Frame huff fl channel p = (channel, [], none)) ∨
      ∃ h, frameHeader p.frame = some h ∧ h.hasBlock ∧
        doHttp2Frame huff fl channel p = finishFrame fl (channel.getD Channel.new) p h
          (decodeBlock huff (channel.getD Channel.new).decoder (headerData h p.frame)) := by
  rw [doHttp2Frame]
  cases frameHeader p.frame with
  | none => exact .inl ⟨nofun, rfl⟩
  | some h =>
    by_cases hblock : h.hasBlock
    · exact .inr ⟨h, rfl, hblock, if_pos hblock⟩
    · refine .inl ⟨?_, if_neg hblock⟩
      rintro h ⟨⟩
      exact hblock

def mkFrame (fType fFlags : UInt8) (fStream : ℕ) (payload : Bytes) : Bytes :=
  [UInt8.ofNat (payload.length / 2 ^ 16), UInt8.ofNat (payload.length / 2 ^ 8),
    UInt8.ofNat payload.length, fType, fFlags, UInt8.ofNat (fStream / 2 ^ 24),
    UInt8.ofNat (fStream / 2 ^ 16), UInt8.ofNat (fStream / 2 ^ 8), UInt8.ofNat fStream] ++ payload

theorem length_mkFrame (fType fFlags : UInt8) (fStream : ℕ) (payload : Bytes) :
    (mkFrame fType fFlags fStream payload).length = 9 + payload.length := by
  simp [mkFrame]
  omega

theorem stream_bytes (hn : n < 2 ^ 31) :
    n / 2 ^ 24 % 256 % 128 * 2 ^ 24 + n / 2 ^ 16 % 256 * 2 ^ 16 + n / 2 ^ 8 % 256 * 2 ^ 8 +
      n % 256 = n := by
  have h16 : n / 2 ^ 16 = n / 2 ^ 8 / 256 := (Nat.div_div_eq_div_mul n (2 ^ 8) 256).symm
  have h24 : n / 2 ^ 24 = n / 2 ^ 16 / 256 := (Nat.div_div_eq_div_mul n (2 ^ 16) 256).symm
  have htop : n / 2 ^ 24 < 128 := by omega
  have h₀ := Nat.div_add_mod n (2 ^ 8)
  have h₁ := Nat.div_add_mod (n / 2 ^ 8) 256
  have h₂ := Nat.div_add_mod (n / 2 ^ 16) 256
  rw [← h16] at h₁
  rw [← h24] at h₂
  rw [Nat.mod_eq_of_lt (Nat.lt_trans htop (by decide)), Nat.mod_eq_of_lt htop]
  generalize n / 2 ^ 24 = a at *
  generalize n / 2 ^ 16 = b at *
  generalize n / 2 ^ 8 = c at *
  omega

theorem frameHeader_mkFrame (hlen : payload.length < 2 ^ 24) (hstream : fStream < 2 ^ 31)
    (htype : fType.toNat ≠ 5) :
    frameHeader (mkFrame fType fFlags fStream payload) =
      some ⟨payload.length, fType.toNat, fFlags, fStream⟩ := by
  have hl : payload.length / 2 ^ 16 % 256 * 2 ^ 16 + payload.length / 2 ^ 8 % 256 * 2 ^ 8 +
      payload.length % 256 = payload.length := by omega
  have hs := stream_bytes hstream
  unfold frameHeader
  rw [length_mkFrame, if_neg (by omega)]
  simp only [mkFrame, streamAt, byteAt, cons_append, getD_cons_zero,
    getD_cons_succ, UInt8.toNat_ofNat', hl, hs]
  simp [htype]

theorem headerData_mkFrame (htype : fType.toNat ≠ 5) (hpadded : fFlags &&& 0x08 = 0)
    (hpriority : fFlags &&& 0x20 = 0) :
    headerData ⟨payload.length, fType.toNat, fFlags, fStream⟩
      (mkFrame fType fFlags fStream payload) = payload := by
  simp only [headerData, Header.padded, Header.priority, hpadded, hpriority, htype, ne_eq,
    not_true_eq_false, if_false]
  rw [take_of_length_le (by simp [mkFrame]; omega)]
  rfl

def posted (isServer : Bool) (frame : Bytes) : Proto :=
  { frame, startDuration := 0, isServer, http1Start := none, socket := [], unassigned := 0 }

def plainHuff : Bytes → Option Bytes := fun _ => none

def allFields : Filters := ⟨fun _ _ => true, fun _ => true, []⟩

end AppView.Http2

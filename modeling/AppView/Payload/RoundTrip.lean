import AppView.Payload.Name

/-!
# Names of payload files are read back

A name is cut at characters that also stand inside addresses: `:` in every address of sixteen
bytes and `_` in `af_unix`.
-/

namespace AppView.Payload

open AppView.Framework Pattern List
open Nat (toDigits)

/-! ## The texts of the groups -/

def Digits (t : List Char) : Prop := t ≠ [] ∧ ∀ c ∈ t, c.isDigit = true

def AddrText (t : List Char) : Prop := (t ≠ [] ∧ ∀ c ∈ t, isAddr c = true) ∨ t ∈ words

theorem captures_num : Captures numPattern Digits := (reads_run Char.isDigit).group

theorem captures_addr : Captures addrPattern AddrText :=
  ((reads_run isAddr).alt (reads_anyWord words)).group

structure Parts where
  pid : List Char
  peer : List Char
  peerPort : List Char
  host : List Char
  hostPort : List Char
  ext : List Char

namespace Parts

structure Fits (x : Parts) : Prop where
  pid : Digits x.pid
  peer : AddrText x.peer
  peerPort : Digits x.peerPort
  host : AddrText x.host
  hostPort : Digits x.hostPort
  ext : x.ext = "in".toList ∨ x.ext = "out".toList

def text (x : Parts) (rest : List Char) : List Char :=
  x.pid ++ '_' :: (x.peer ++ ':' :: (x.peerPort ++ '_' ::
    (x.host ++ ':' :: (x.hostPort ++ '.' :: (x.ext ++ rest)))))

def groups (x : Parts) : List (List Char) :=
  [x.pid, x.peer, x.peerPort, x.host, x.hostPort, x.ext]

end Parts

variable {r : List Char} {x : Parts} {node : UInt64}

theorem mem_ways_flowPattern {s : List Char} {cs : List (List Char)} :
    (cs, r) ∈ ways flowPattern s ↔ ∃ x : Parts, x.Fits ∧ cs = x.groups ∧ s = x.text r := by
  have hext : Captures (.group (.alt (.word "in".toList) (.word "out".toList)))
      fun t => t = "in".toList ∨ t = "out".toList :=
    ((reads_word _).alt (reads_word _)).group
  constructor
  · intro h₀
    obtain ⟨pid, _, _, rfl, hpid, rfl, h₁⟩ := captures_num.seq_word.1 h₀
    obtain ⟨peer, _, _, rfl, hpeer, rfl, h₂⟩ := captures_addr.seq_word.1 h₁
    obtain ⟨peerPort, _, _, rfl, hpeerPort, rfl, h₃⟩ := captures_num.seq_word.1 h₂
    obtain ⟨host, _, _, rfl, hhost, rfl, h₄⟩ := captures_addr.seq_word.1 h₃
    obtain ⟨hostPort, _, _, rfl, hhostPort, rfl, h₅⟩ := captures_num.seq_word.1 h₄
    obtain ⟨ext, rfl, hext', rfl⟩ := hext.1 h₅
    exact ⟨⟨pid, peer, peerPort, host, hostPort, ext⟩,
      ⟨hpid, hpeer, hpeerPort, hhost, hhostPort, hext'⟩, rfl, rfl⟩
  · rintro ⟨x, hx, rfl, rfl⟩
    refine captures_num.seq_word.2 ⟨_, _, _, rfl, hx.pid, rfl, ?_⟩
    refine captures_addr.seq_word.2 ⟨_, _, _, rfl, hx.peer, rfl, ?_⟩
    refine captures_num.seq_word.2 ⟨_, _, _, rfl, hx.peerPort, rfl, ?_⟩
    refine captures_addr.seq_word.2 ⟨_, _, _, rfl, hx.host, rfl, ?_⟩
    refine captures_num.seq_word.2 ⟨_, _, _, rfl, hx.hostPort, rfl, ?_⟩
    exact hext.2 ⟨_, rfl, hx.ext, rfl⟩

/-! ## A name is cut in one way -/

theorem word_leaves {w : List Char} (hw : w ∈ words) :
    ∃ u d v, w = u ++ d :: v ∧ (∀ c ∈ u, isAddr c = true) ∧ ':' ∉ u ∧ isAddr d = false := by
  simp only [words, mem_cons, not_mem_nil, or_false] at hw
  rcases hw with rfl | rfl | rfl | rfl | rfl
  · exact ⟨['a', 'f'], '_', "unix".toList, by decide, all_eq_true.1 (by decide), by decide,
      by decide⟩
  · exact ⟨[], 'n', "etrx".toList, by decide, forall_mem_nil _, by decide, by decide⟩
  · exact ⟨[], 'n', "ettx".toList, by decide, forall_mem_nil _, by decide, by decide⟩
  · exact ⟨[], 't', "lsrx".toList, by decide, forall_mem_nil _, by decide, by decide⟩
  · exact ⟨[], 't', "lstx".toList, by decide, forall_mem_nil _, by decide, by decide⟩

theorem isAddr_of_isDigit {c : Char} (h : c.isDigit = true) : isAddr c = true := by
  simp [isAddr, h]

variable {t : List Char}

theorem Digits.colon_notMem (h : Digits t) : ':' ∉ t := fun hc => by
  cases h.2 _ hc

section Cut

variable {a a' t t' y y' : List Char} {c c' : Char}

theorem run_isAddr (ha : ∀ d ∈ a, isAddr d = true) (ht : ∀ d ∈ t, isAddr d = true) :
    ∀ d ∈ a ++ ':' :: t, isAddr d = true := by
  intro d hd
  rcases mem_append.1 hd with hd | hd
  · exact ha d hd
  · rcases mem_cons.1 hd with rfl | hd
    · decide
    · exact ht d hd

theorem run_ne_word (ha : ∀ d ∈ a, isAddr d = true) (ht : ∀ d ∈ t, isAddr d = true)
    (hc : isAddr c = false) (hw : a' ∈ words) :
    a ++ ':' :: (t ++ c :: y) ≠ a' ++ ':' :: y' := by
  intro h
  obtain ⟨u, d, v, rfl, hu, hcolon, hd⟩ := word_leaves hw
  have hcut : (a ++ ':' :: t) ++ c :: y = u ++ d :: (v ++ ':' :: y') := by simpa using h
  obtain ⟨rfl, -⟩ := span_unique (run_isAddr ha ht) hu hc hd hcut
  exact hcolon (by simp)

/-- **An address is determined**, where the text after its colon goes on in the class,
without a colon, and then leaves the class. -/
theorem addr_unique (ha : AddrText a) (ha' : AddrText a')
    (ht : ∀ d ∈ t, isAddr d = true) (ht' : ∀ d ∈ t', isAddr d = true)
    (hcol : ':' ∉ t) (hcol' : ':' ∉ t') (hc : isAddr c = false) (hc' : isAddr c' = false)
    (h : a ++ ':' :: (t ++ c :: y) = a' ++ ':' :: (t' ++ c' :: y')) :
    a = a' ∧ t ++ c :: y = t' ++ c' :: y' := by
  rcases ha with ⟨-, ha⟩ | hw
  · rcases ha' with ⟨-, ha'⟩ | hw'
    · -- both are runs: the same run, cut at its last colon
      have hcut : (a ++ ':' :: t) ++ c :: y = (a' ++ ':' :: t') ++ c' :: y' := by simpa using h
      obtain ⟨hrun, rfl, rfl⟩ :=
        span_unique (run_isAddr ha ht) (run_isAddr ha' ht') hc hc' hcut
      obtain ⟨rfl, rfl⟩ := last_unique hcol hcol' hrun
      exact ⟨rfl, rfl⟩
    · exact absurd h (run_ne_word ha ht hc hw')
  · rcases ha' with ⟨-, ha'⟩ | hw'
    · exact absurd h.symm (run_ne_word ha' ht' hc' hw)
    · -- both are words: the first colon ends them
      have hword : ∀ w ∈ words, ∀ d ∈ w, decide (d ≠ ':') = true := by
        have hall : ∀ w ∈ words, (w.all fun d => decide (d ≠ ':')) = true := by decide
        exact fun w hw => all_eq_true.1 (hall w hw)
      obtain ⟨rfl, -, hrest⟩ := span_unique (p := fun d => decide (d ≠ ':'))
        (hword a hw) (hword a' hw') (by decide) (by decide) h
      exact ⟨rfl, hrest⟩

end Cut

variable {e r' buf dir : List Char} {n : ℕ}

theorem ext_unique {e' : List Char} (he : e = "in".toList ∨ e = "out".toList)
    (he' : e' = "in".toList ∨ e' = "out".toList) (h : e ++ r = e' ++ r') : e = e' := by
  rcases he with rfl | rfl <;> rcases he' with rfl | rfl
  · rfl
  · simp at h
  · simp at h
  · rfl

theorem Digits.point (h : Digits t) : (∀ d ∈ t ++ ['.'], isAddr d = true) ∧ ':' ∉ t ++ ['.'] := by
  constructor
  · intro d hd
    rcases mem_append.1 hd with hd | hd
    · exact isAddr_of_isDigit (h.2 d hd)
    · obtain rfl := mem_singleton.1 hd
      decide
  · simpa using h.colon_notMem

theorem ext_leaves (he : e = "in".toList ∨ e = "out".toList) :
    ∃ d v, e = d :: v ∧ isAddr d = false := by
  rcases he with rfl | rfl
  · exact ⟨'i', ['n'], by decide, by decide⟩
  · exact ⟨'o', ['u', 't'], by decide, by decide⟩

/-- **The parts of a name are determined by it**, whatever follows the name. -/
theorem parts_unique {y : Parts} (hx : x.Fits) (hy : y.Fits) (h : x.text r = y.text r') :
    x = y := by
  -- the process number ends at the first underscore
  obtain ⟨hpid, -, h⟩ := span_unique hx.pid.2 hy.pid.2 (by decide) (by decide) h
  -- the peer's address and port end at the next one outside the class
  obtain ⟨hpeer, h⟩ := addr_unique hx.peer hy.peer
    (fun d hd => isAddr_of_isDigit (hx.peerPort.2 d hd))
    (fun d hd => isAddr_of_isDigit (hy.peerPort.2 d hd))
    hx.peerPort.colon_notMem hy.peerPort.colon_notMem (by decide) (by decide) h
  obtain ⟨hpeerPort, -, h⟩ :=
    span_unique hx.peerPort.2 hy.peerPort.2 (by decide) (by decide) h
  -- the class goes on through the point up to the extension
  obtain ⟨d, v, hd, hdc⟩ := ext_leaves hx.ext
  obtain ⟨d', v', hd', hdc'⟩ := ext_leaves hy.ext
  have hhosts : x.host ++ ':' :: ((x.hostPort ++ ['.']) ++ d :: (v ++ r)) =
      y.host ++ ':' :: ((y.hostPort ++ ['.']) ++ d' :: (v' ++ r')) := by
    simpa [hd, hd'] using h
  obtain ⟨hhost, h⟩ := addr_unique hx.host hy.host hx.hostPort.point.1 hy.hostPort.point.1
    hx.hostPort.point.2 hy.hostPort.point.2 hdc hdc' hhosts
  have hports : x.hostPort ++ '.' :: (x.ext ++ r) = y.hostPort ++ '.' :: (y.ext ++ r') := by
    simpa [hd, hd'] using h
  obtain ⟨hhostPort, -, h⟩ :=
    span_unique hx.hostPort.2 hy.hostPort.2 (by decide) (by decide) hports
  have hext := ext_unique hx.ext hy.ext h
  cases x
  cases y
  simp_all

theorem search_text (hx : x.Fits) : flowPattern.search (x.text []) = some x.groups := by
  refine search_of_unique (x := (x.groups, [])) (mem_ways_flowPattern.2 ⟨x, hx, rfl, rfl⟩) ?_
  rintro ⟨cs, r⟩ hy
  obtain ⟨y, hfits, rfl, htext⟩ := mem_ways_flowPattern.1 hy
  rw [parts_unique hx hfits htext]

/-! ## Numbers -/

theorem digits_toDigits (n : ℕ) : Digits (toDigits 10 n) :=
  ⟨Nat.toDigits_ne_nil, fun _ hc => isDigit_of_mem_toDigits hc⟩

theorem readNumber_toDigits (hn : n < 2 ^ 63) : readNumber (toDigits 10 n) = .ok (n : ℤ) := by
  have hread : readNat (toDigits 10 n) = some (n, []) := by
    have hend : NoDigit [] := by simp [NoDigit]
    simpa using readNat_toDigits n hend
  have hrange : inRange n = some (n : ℤ) := if_pos ⟨by omega, by omega⟩
  have hsign : ∀ c ds, c.isDigit = false → toDigits 10 n ≠ c :: ds := by
    intro c ds hc h
    have hdigit := isDigit_of_mem_toDigits (n := n) (c := c) (by simp [h])
    rw [hc] at hdigit
    cases hdigit
  have hatoi : atoi (toDigits 10 n) = some (n : ℤ) := by
    unfold atoi
    split
    · exact absurd ‹_› (hsign _ _ (by decide))
    · exact absurd ‹_› (hsign _ _ (by decide))
    · simp [hread, hrange]
  rw [readNumber, hatoi]

theorem snprintf_port (hn : n < 10 ^ 19) : snprintf portLen (toDigits 10 n) = toDigits 10 n := by
  have hlen : (toDigits 10 n).length ≤ 19 :=
    (Nat.length_toDigits_le_iff (by decide) (by decide)).2 hn
  exact take_of_length_le hlen

/-! ## Address texts -/

theorem isAddr_of_mem_hex (n : ℕ) : ∀ c ∈ toDigits 16 n, isAddr c = true := by
  have hdigit : ∀ k < 16, isAddr (Nat.digitChar k) = true := by decide
  induction n using Nat.strongRecOn with
  | ind n ih =>
    intro c hc
    rw [Nat.toDigits_eq_if (by decide)] at hc
    split_ifs at hc with hn
    · obtain rfl := mem_singleton.1 hc
      exact hdigit n hn
    · rcases mem_append.1 hc with hc | hc
      · exact ih (n / 16) (by omega) c hc
      · obtain rfl := mem_singleton.1 hc
        exact hdigit (n % 16) (by omega)

section Joined

variable {sep : Char} {xs : List (List Char)}

theorem mem_joined {c : Char} (h : c ∈ joined sep xs) : c = sep ∨ ∃ x ∈ xs, c ∈ x := by
  induction xs with
  | nil => cases h
  | cons x xs ih =>
    cases xs with
    | nil => exact .inr ⟨x, by simp, h⟩
    | cons y xs =>
      rcases mem_append.1 h with h | h
      · exact .inr ⟨x, by simp, h⟩
      · rcases mem_cons.1 h with rfl | h
        · exact .inl rfl
        · rcases ih h with rfl | ⟨z, hz, hc⟩
          · exact .inl rfl
          · exact .inr ⟨z, mem_cons_of_mem _ hz, hc⟩

theorem length_joined_le {k : ℕ} (h : ∀ x ∈ xs, x.length ≤ k) :
    (joined sep xs).length ≤ xs.length * (k + 1) := by
  induction xs with
  | nil => simp [joined]
  | cons x xs ih =>
    have hx := h x (by simp)
    have hrest := ih (forall_mem_cons.1 h).2
    rw [length_cons, Nat.succ_mul]
    cases xs with
    | nil => simp only [joined]; omega
    | cons y xs =>
      simp only [joined, length_append, length_cons] at hrest ⊢
      omega

theorem isAddr_joined (hsep : isAddr sep = true)
    (h : ∀ x ∈ xs, ∀ c ∈ x, isAddr c = true) : ∀ c ∈ joined sep xs, isAddr c = true := by
  intro c hc
  rcases mem_joined hc with rfl | ⟨x, hx, hcx⟩
  · exact hsep
  · exact h x hx c hcx

theorem joined_ne_nil {x : List Char} (hx : x ≠ []) : joined sep (x :: xs) ≠ [] := by
  cases xs with
  | nil => exact hx
  | cons y xs => simp [joined]

end Joined

theorem isAddr_dotted (a : List ℕ) : ∀ c ∈ dotted a, isAddr c = true := by
  refine isAddr_joined (by decide) ?_
  intro x hx c hc
  obtain ⟨n, -, rfl⟩ := mem_map.1 hx
  exact isAddr_of_isDigit (isDigit_of_mem_toDigits hc)

variable {a : List ℕ}

theorem length_dotted_le (h : ∀ b ∈ a, b < 256) : (dotted a).length ≤ a.length * 4 := by
  have hparts : ∀ x ∈ a.map (toDigits 10), x.length ≤ 3 := by
    intro x hx
    obtain ⟨b, hb, rfl⟩ := mem_map.1 hx
    exact (Nat.length_toDigits_le_iff (by decide) (by decide)).2 (by have := h b hb; omega)
  have hlen : (dotted a).length ≤ (a.map (toDigits 10)).length * 4 :=
    length_joined_le hparts
  simpa using hlen

theorem groups_lt (h : ∀ b ∈ a, b < 256) : ∀ g ∈ groups a, g < 65536 := by
  fun_induction groups a with
  | case1 hi lo a ih =>
    intro g hg
    rcases mem_cons.1 hg with rfl | hg
    · have hhi := h hi (by simp)
      have hlo := h lo (by simp)
      omega
    · exact ih (fun b hb => h b (by simp [hb])) g hg
  | case2 => simp

theorem length_groups_le (a : List ℕ) : 2 * (groups a).length ≤ a.length := by
  fun_induction groups a with
  | case1 hi lo a ih => simp only [length_cons]; omega
  | case2 => simp

theorem isAddr_hexGroups (gs : List ℕ) : ∀ x ∈ gs.map (toDigits 16), ∀ c ∈ x, isAddr c = true := by
  intro x hx
  obtain ⟨g, -, rfl⟩ := mem_map.1 hx
  exact isAddr_of_mem_hex g

theorem isAddr_fullText (a : List ℕ) : ∀ c ∈ fullText a, isAddr c = true := by
  unfold fullText
  split_ifs
  · refine isAddr_joined (by decide) ?_
    intro x hx
    rcases mem_append.1 hx with hx | hx
    · exact isAddr_hexGroups _ x hx
    · obtain rfl := mem_singleton.1 hx
      exact isAddr_dotted _
  · exact isAddr_joined (by decide) (isAddr_hexGroups _)

theorem length_fullText_le (hlen : a.length = 16) (h : ∀ b ∈ a, b < 256) :
    (fullText a).length ≤ 40 := by
  unfold fullText
  split_ifs with hmapped
  · -- the groups before the dotted bytes are fixed
    have hdot := length_dotted_le (a := a.drop 12) fun b hb => h b (mem_of_mem_drop hb)
    have hgroups : (groups mappedStart).map (toDigits 16) =
        [['0'], ['0'], ['0'], ['0'], ['0'], ['f', 'f', 'f', 'f']] := by decide
    rw [hmapped, hgroups]
    simp only [cons_append, nil_append, joined, length_cons]
    simp only [length_drop, hlen] at hdot
    omega
  · have hparts : ∀ x ∈ (groups a).map (toDigits 16), x.length ≤ 4 := by
      intro x hx
      obtain ⟨g, hg, rfl⟩ := mem_map.1 hx
      exact (Nat.length_toDigits_le_iff (by decide) (by decide)).2 (groups_lt h g hg)
    have hjoined : (joined ':' ((groups a).map (toDigits 16))).length ≤
        ((groups a).map (toDigits 16)).length * 5 := length_joined_le hparts
    have hgroups := length_groups_le a
    rw [length_map] at hjoined
    omega

theorem fullText_ne_nil (hlen : a.length = 16) : fullText a ≠ [] := by
  obtain ⟨x, a, rfl⟩ := exists_cons_of_length_pos (by omega : 0 < a.length)
  obtain ⟨y, a, rfl⟩ := exists_cons_of_length_pos
    (by simp only [length_cons] at hlen; omega : 0 < a.length)
  unfold fullText
  split_ifs
  · exact joined_ne_nil Nat.toDigits_ne_nil
  · exact joined_ne_nil Nat.toDigits_ne_nil

theorem mem_shortened {c : Char} (h : c ∈ shortened buf) : c = ':' ∨ c ∈ buf := by
  simp only [shortened] at h
  split_ifs at h
  · simp only [mem_append, mem_cons, not_mem_nil, or_false, or_self] at h
    rcases h with (h | h) | h
    · exact .inr (mem_of_mem_take h)
    · exact .inl h
    · exact .inr (mem_of_mem_drop h)
  · exact .inr h

theorem length_shortened_le (buf : List Char) : (shortened buf).length ≤ buf.length + 2 := by
  simp only [shortened]
  split_ifs
  · simp only [length_append, length_take, length_drop, length_cons, length_nil]
    omega
  · omega

theorem shortened_ne_nil (h : buf ≠ []) : shortened buf ≠ [] := by
  simp only [shortened]
  split_ifs
  · simp
  · exact h

/-! ## The ends of a connection -/

inductive Endpoint where
  | inet (addr : List ℕ) (port : ℕ)
  | inet6 (addr : List ℕ) (port : ℕ)
  | unix (node : ℕ)
  | unknown

namespace Endpoint

def addr (src : MetricT) : Endpoint → List Char
  | inet a _ => dotted a
  | inet6 a _ => shortened (fullText a)
  | unix _ => "af_unix".toList
  | unknown => srcStr src

def port : Endpoint → ℕ
  | inet _ p | inet6 _ p => p
  | unix node => node
  | unknown => 0

end Endpoint

def endpoint (conn : SockaddrStorage) (node : UInt64) : Endpoint :=
  if conn.ssFamily = afInet then .inet (bytesAt conn 2 4) (portOf conn)
  else if conn.ssFamily = afInet6 then .inet6 (bytesAt conn 6 16) (portOf conn)
  else if conn.ssFamily = afUnix then .unix node.toNat
  else .unknown

def Net.localEnd (net : Net) : Endpoint :=
  if net.active then endpoint net.localConn net.lnode else .unknown

def Net.remoteEnd (net : Net) : Endpoint :=
  if net.active then endpoint net.remoteConn net.rnode else .unknown

variable (conn : SockaddrStorage) (start : ℕ)

theorem length_bytesAt (count : ℕ) : (bytesAt conn start count).length = count := by
  simp [bytesAt]

theorem bytesAt_lt (count : ℕ) : ∀ b ∈ bytesAt conn start count, b < 256 := by
  intro b hb
  obtain ⟨i, -, rfl⟩ := mem_map.1 hb
  exact UInt8.toNat_lt _

theorem portOf_lt : portOf conn < 65536 := by
  have hhi := UInt8.toNat_lt (conn.data.getD 0 0)
  have hlo := UInt8.toNat_lt (conn.data.getD 1 0)
  unfold portOf
  omega

theorem inetNtop4_bytesAt :
    inetNtop4 (bytesAt conn start 4) inet6AddrStrLen = some (dotted (bytesAt conn start 4)) := by
  have hlen := length_dotted_le (bytesAt_lt conn start 4)
  rw [length_bytesAt] at hlen
  exact if_pos (by unfold inet6AddrStrLen; omega)

theorem inetNtop6_bytesAt : inetNtop6 (bytesAt conn start 16) inet6AddrStrLen =
      some (shortened (fullText (bytesAt conn start 16))) := by
  have hlen := length_fullText_le (length_bytesAt conn start 16) (bytesAt_lt conn start 16)
  have hshort := length_shortened_le (fullText (bytesAt conn start 16))
  have hbuf : snprintf 100 (fullText (bytesAt conn start 16)) =
      fullText (bytesAt conn start 16) := take_of_length_le (by omega)
  rw [inetNtop6, hbuf]
  exact if_pos (by unfold inet6AddrStrLen; omega)

theorem snprintf_node (h : node.toNat < 2 ^ 63) :
    snprintf portLen (nodeText node) = toDigits 10 node.toNat := by
  rw [nodeText, if_pos h, decimal_natCast]
  exact snprintf_port (by omega)

theorem endText_eq (src : MetricT) (conn : SockaddrStorage)
    (hnode : ∀ n, endpoint conn node = .unix n → n < 2 ^ 63) :
    endText src conn node =
      ((endpoint conn node).addr src, toDigits 10 (endpoint conn node).port) := by
  have hport := portOf_lt conn
  have hprint : snprintf portLen (decimal (portOf conn)) = toDigits 10 (portOf conn) :=
    snprintf_port (by omega)
  by_cases h4 : conn.ssFamily = afInet
  · rw [endText, getConn, endpoint, if_pos h4, if_pos h4, inetNtop4_bytesAt, hprint]
    rfl
  by_cases h6 : conn.ssFamily = afInet6
  · rw [endText, getConn, endpoint, if_neg h4, if_neg h4, if_pos h6, if_pos h6,
      inetNtop6_bytesAt, hprint]
    rfl
  have hnone : getConn conn = none := by rw [getConn, if_neg h4, if_neg h6]
  by_cases hu : conn.ssFamily = afUnix
  · have hend : endpoint conn node = .unix node.toNat := by
      rw [endpoint, if_neg h4, if_neg h6, if_pos hu]
    have hprint := snprintf_node (hnode _ hend)
    rw [endText, hnone, hend]
    rw [if_pos hu, hprint]
    rfl
  · have hend : endpoint conn node = .unknown := by
      rw [endpoint, if_neg h4, if_neg h6, if_neg hu]
    rw [endText, hnone, hend]
    rw [if_neg hu]
    rfl

theorem shown_eq (src : MetricT) (active : Bool) (conn : SockaddrStorage)
    (hnode : ∀ n, (if active then endpoint conn node else .unknown) = .unix n → n < 2 ^ 63) :
    (if active then endText src conn node else (srcStr src, ['0'])) =
      ((if active then endpoint conn node else .unknown).addr src,
        toDigits 10 (if active then endpoint conn node else .unknown).port) := by
  cases active with
  | false =>
    rw [if_neg Bool.false_ne_true, if_neg Bool.false_ne_true]
    rfl
  | true => exact endText_eq src conn hnode

def Transmits (src : MetricT) : Prop := src = .nettx ∨ src = .tlstx

def Receives (src : MetricT) : Prop := src = .netrx ∨ src = .tlsrx

instance : DecidablePred Receives := fun src =>
  inferInstanceAs (Decidable (src = .netrx ∨ src = .tlsrx))

def Endpoint.Sized : Endpoint → Prop
  | .inet a p => a.length = 4 ∧ p < 65536
  | .inet6 a p => a.length = 16 ∧ p < 65536
  | _ => True

theorem sized_endpoint (node : UInt64) : (endpoint conn node).Sized := by
  unfold endpoint
  split_ifs
  · exact ⟨length_bytesAt .., portOf_lt conn⟩
  · exact ⟨length_bytesAt .., portOf_lt conn⟩
  · trivial
  · trivial

theorem sized_localEnd (net : Net) : net.localEnd.Sized := by
  unfold Net.localEnd
  split_ifs
  · exact sized_endpoint _ _
  · trivial

theorem sized_remoteEnd (net : Net) : net.remoteEnd.Sized := by
  unfold Net.remoteEnd
  split_ifs
  · exact sized_endpoint _ _
  · trivial

variable {src : MetricT}

theorem Endpoint.addrText {e : Endpoint} (h : e.Sized)
    (hsrc : Transmits src ∨ Receives src) : AddrText (e.addr src) := by
  cases e with
  | inet a p =>
    obtain ⟨x, a, rfl⟩ := exists_cons_of_length_pos (by have := h.1; omega : 0 < a.length)
    exact .inl ⟨joined_ne_nil Nat.toDigits_ne_nil, isAddr_dotted _⟩
  | inet6 a p =>
    refine .inl ⟨shortened_ne_nil (fullText_ne_nil h.1), ?_⟩
    intro c hc
    rcases mem_shortened hc with rfl | hc
    · decide
    · exact isAddr_fullText a c hc
  | unix node =>
    have hword : "af_unix".toList ∈ words := by decide
    exact .inr hword
  | unknown =>
    refine .inr ?_
    rcases hsrc with (rfl | rfl) | (rfl | rfl)
    · decide
    · decide
    · decide
    · decide

theorem Endpoint.port_lt {e : Endpoint} (h : e.Sized) (hnode : ∀ n, e = .unix n → n < 2 ^ 63) :
    e.port < 2 ^ 63 := by
  cases e with
  | inet a p | inet6 a p => exact lt_trans h.2 (by decide)
  | unix node => exact hnode node rfl
  | unknown => exact (by decide : 0 < 2 ^ 63)

/-! ## The round trip -/

def partsOf (pid : ℕ) (src : MetricT) (net : Net) (ext : List Char) : Parts where
  pid := toDigits 10 pid
  peer := net.remoteEnd.addr src
  peerPort := toDigits 10 net.remoteEnd.port
  host := net.localEnd.addr src
  hostPort := toDigits 10 net.localEnd.port
  ext := ext

theorem partsOf_fits (hsrc : Transmits src ∨ Receives src) (pid : ℕ) (net : Net)
    {ext : List Char} (hext : ext = "in".toList ∨ ext = "out".toList) :
    (partsOf pid src net ext).Fits where
  pid := digits_toDigits _
  peer := Endpoint.addrText (sized_remoteEnd net) hsrc
  peerPort := digits_toDigits _
  host := Endpoint.addrText (sized_localEnd net) hsrc
  hostPort := digits_toDigits _
  ext := hext

def flowOf (pid : ℕ) (src : MetricT) (net : Net) (inFile outFile : List Char) : Flow where
  pid := pid
  peerIP := net.remoteEnd.addr src
  peerPort := net.remoteEnd.port
  hostIP := net.localEnd.addr src
  hostPort := net.localEnd.port
  inFile := inFile
  outFile := outFile

section Name

variable {pid : ℕ} {src : MetricT} {net : Net} {ext : List Char}

theorem nameOf_eq (hl : ∀ n, net.localEnd = .unix n → n < 2 ^ 63)
    (hr : ∀ n, net.remoteEnd = .unix n → n < 2 ^ 63) :
    nameOf pid (remoteText src net) (localText src net) ext =
      (partsOf pid src net ext).text [] := by
  rw [localText, remoteText, shown_eq src net.active net.localConn hl,
    shown_eq src net.active net.remoteConn hr]
  simp [nameOf, Parts.text, partsOf, decimal_natCast, Net.localEnd, Net.remoteEnd]

theorem parse_text (hsrc : Transmits src ∨ Receives src)
    (hext : ext = "in".toList ∨ ext = "out".toList) (hpid : pid < 2 ^ 63)
    (hl : ∀ n, net.localEnd = .unix n → n < 2 ^ 63)
    (hr : ∀ n, net.remoteEnd = .unix n → n < 2 ^ 63) :
    parseFlowFileName ((partsOf pid src net ext).text []) =
      .ok (if ext = "in".toList then flowOf pid src net ((partsOf pid src net ext).text []) []
        else flowOf pid src net [] ((partsOf pid src net ext).text [])) := by
  rw [parseFlowFileName, search_text (partsOf_fits hsrc pid net hext)]
  dsimp only [Parts.groups, partsOf]
  rw [readNumber_toDigits hpid, readNumber_toDigits (Endpoint.port_lt (sized_localEnd net) hl),
    readNumber_toDigits (Endpoint.port_lt (sized_remoteEnd net) hr)]
  split_ifs with hin
  · rfl
  · rfl

end Name

theorem Digits.slash_notMem (h : Digits t) : '/' ∉ t := fun hc => by
  cases h.2 _ hc

theorem AddrText.slash_notMem (h : AddrText t) : '/' ∉ t := by
  rcases h with ⟨-, hall⟩ | hw
  · intro hc
    cases hall _ hc
  · have hwords : ∀ w ∈ words, '/' ∉ w := by decide
    exact hwords t hw

theorem Parts.Fits.slash_notMem (h : x.Fits) : '/' ∉ x.text [] := by
  have hext : '/' ∉ x.ext := by
    rcases h.ext with hext | hext
    · rw [hext]; decide
    · rw [hext]; decide
  simp [Parts.text, h.pid.slash_notMem, h.peer.slash_notMem, h.peerPort.slash_notMem,
    h.host.slash_notMem, h.hostPort.slash_notMem, hext]

theorem filepathBase_append {name : List Char} (hne : name ≠ []) (h : '/' ∉ name) :
    filepathBase (dir ++ '/' :: name) = name := by
  obtain ⟨c, cs, hrev⟩ := exists_cons_of_ne_nil (reverse_ne_nil_iff.2 hne)
  have hall : ∀ d ∈ name.reverse, d ≠ '/' := by
    rintro d hd rfl
    exact h (mem_reverse.1 hd)
  have hc : c ≠ '/' := hall c (by simp [hrev])
  have hlast : ((dir ++ '/' :: name).reverse.dropWhile (· = '/')).takeWhile (· ≠ '/') =
      name.reverse := by
    have hsplit : (dir ++ '/' :: name).reverse = c :: (cs ++ '/' :: dir.reverse) := by
      simp [hrev]
    rw [hsplit, dropWhile_cons_of_neg (by simpa using hc), ← cons_append, ← hrev,
      takeWhile_append_of_pos (by simpa using hall),
      takeWhile_cons_of_neg (by simp), append_nil]
  have hrevne : name.reverse ≠ [] := reverse_ne_nil_iff.2 hne
  rw [filepathBase, if_neg (by simp), hlast]
  rw [if_neg hrevne, reverse_reverse]

theorem filepathBase_payloadPath {pid : Int32} {net : Net}
    (hne : payloadName pid src net ≠ []) (h : '/' ∉ payloadName pid src net)
    (hfits : dir.length + 1 + (payloadName pid src net).length < pathMax) :
    filepathBase (payloadPath dir pid src net) = payloadName pid src net := by
  have hwhole : payloadPath dir pid src net = dir ++ '/' :: payloadName pid src net := by
    refine take_of_length_le ?_
    simp only [length_append, length_cons]
    omega
  rw [hwhole, filepathBase_append hne h]

section Built

variable (pid : Int32) (src : MetricT) (net : Net) (hpid : 0 ≤ pid.toInt)
  (hsrc : Transmits src ∨ Receives src) (hl : ∀ n, net.localEnd = .unix n → n < 2 ^ 63)
  (hr : ∀ n, net.remoteEnd = .unix n → n < 2 ^ 63)

include hpid hsrc hl hr

theorem payloadName_eq :
    payloadName pid src net = (partsOf pid.toInt.toNat src net
      (if Receives src then "in".toList else "out".toList)).text [] := by
  have hcast : pid.toInt = (pid.toInt.toNat : ℤ) := (Int.toNat_of_nonneg hpid).symm
  rw [← nameOf_eq hl hr, ← hcast]
  rcases hsrc with (rfl | rfl) | (rfl | rfl)
  · rfl
  · rfl
  · rfl
  · rfl

/-- **A payload's file name is read back as the connection it was built for.** The ends
are those of the connection, whatever the family of their addresses; the name is also what
is left of the path that is opened. -/
theorem payload_name_round_trip :
    parseFlowFileName (payloadName pid src net) = .ok {
      pid := pid.toInt
      peerIP := net.remoteEnd.addr src
      peerPort := net.remoteEnd.port
      hostIP := net.localEnd.addr src
      hostPort := net.localEnd.port
      inFile := if Receives src then payloadName pid src net else []
      outFile := if Receives src then [] else payloadName pid src net } ∧
    ∀ dir : List Char, dir.length + 1 + (payloadName pid src net).length < pathMax →
      filepathBase (payloadPath dir pid src net) = payloadName pid src net := by
  have hname := payloadName_eq pid src net hpid hsrc hl hr
  have hext : (if Receives src then "in".toList else "out".toList) = "in".toList ∨
      (if Receives src then "in".toList else "out".toList) = "out".toList := by
    split_ifs
    · exact .inl rfl
    · exact .inr rfl
  have hfits := partsOf_fits hsrc pid.toInt.toNat net hext
  constructor
  · have hlt : pid.toInt.toNat < 2 ^ 63 := by
      have := Int32.toInt_lt pid
      omega
    have hcast : (pid.toInt.toNat : ℤ) = pid.toInt := Int.toNat_of_nonneg hpid
    have hparse := parse_text hsrc hext hlt hl hr
    rw [← hname] at hparse
    rw [hparse]
    by_cases hrec : Receives src
    · simp only [if_pos hrec, if_true, flowOf, hcast]
    · have hout : "out".toList ≠ "in".toList := by decide
      simp only [if_neg hrec, if_neg hout, flowOf, hcast]
  · intro dir hdir
    refine filepathBase_payloadPath ?_ ?_ hdir
    · rw [hname]
      simp [Parts.text]
    · rw [hname]
      exact hfits.slash_notMem

end Built

def mixedNet : Net where
  active := true
  localConn := { ssFamily := afUnix }
  remoteConn := { ssFamily := afInet6, data := [1, 187, 0, 0, 0, 0, 254, 128, 0, 0, 0, 0, 0, 0,
    0, 0, 0, 0, 0, 0, 0, 1] }
  lnode := 70123
  rnode := 0

theorem payload_name_round_trip_mixed :
    payloadName 4210 .tlsrx mixedNet = "4210_fe80::1:443_af_unix:70123.in".toList ∧
    parseFlowFileName (payloadName 4210 .tlsrx mixedNet) = .ok {
      pid := 4210
      peerIP := "fe80::1".toList
      peerPort := 443
      hostIP := "af_unix".toList
      hostPort := 70123
      inFile := "4210_fe80::1:443_af_unix:70123.in".toList
      outFile := [] } := by
  have hname : payloadName 4210 .tlsrx mixedNet =
      "4210_fe80::1:443_af_unix:70123.in".toList := by decide +kernel
  refine ⟨hname, ?_⟩
  have hpeer : mixedNet.remoteEnd.addr .tlsrx = "fe80::1".toList := by decide +kernel
  have hround := payload_name_round_trip 4210 .tlsrx mixedNet (by decide)
    (.inr (.inr rfl)) (by rintro n ⟨⟩; decide) (by rintro n ⟨⟩)
  rw [hround.1, hname, hpeer]
  rfl

end AppView.Payload

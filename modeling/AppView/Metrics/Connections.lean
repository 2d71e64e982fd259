import AppView.Metrics.Simulation

/-!
# Opens and closes of connections

A message of an opened connection carries a copy of the process-wide counter.
**`opens_closes_conserved`**: in every run in which no such deduction happens, each open and
each close is reported or still counted, exactly once.
-/

namespace AppView.Metrics

open AppView.Framework

namespace Kind

theorem held_single {k : Kind} {g : Ctr} (h : ∀ c, k.counts c = true ↔ c = g)
    (s : State) : k.held s = (s.ctrs g).mtc.toNat := by
  have htotal : ∀ c, (k.books s).total c = if c = g then (s.ctrs g).mtc.toNat else 0 := by
    intro c
    by_cases hc : c = g
    · subst hc
      simp [books, total, (h c).mpr rfl]
    · simp [books, total, mt (h c).mp hc, hc]
  unfold held Ledger.held
  rw [Finset.sum_congr rfl fun c _ => htotal c, Finset.sum_ite_eq' Finset.univ g]
  simp

end Kind

/-- **Opens and closes are conserved** in every run in which each reported open and
close is covered by its counter. -/
theorem opens_closes_conserved {cfg : Config} (hmtc : cfg.mtcEnabled = true)
    {verbosity : ℕ} {ops : List Op}
    (hopen : Along (step cfg) (Kind.opened.Covers cfg) (init verbosity) ops)
    (hclose : Along (step cfg) (Kind.closed.Covers cfg) (init verbosity) ops)
    (hopens : Kind.opened.recordedIn cfg (init verbosity) ops < 2 ^ 63)
    (hcloses : Kind.closed.recordedIn cfg (init verbosity) ops < 2 ^ 63) :
    let r := process cfg (init verbosity) ops
    Kind.opened.emitted r.2 + (r.1.ctrs .netConnOpen).mtc.toNat =
      Kind.opened.recordedIn cfg (init verbosity) ops ∧
    Kind.closed.emitted r.2 + (r.1.ctrs .netConnClose).mtc.toNat =
      Kind.closed.recordedIn cfg (init verbosity) ops := by
  constructor
  · have h := Kind.process_eq hmtc hopen (by rw [Kind.held_init]; omega)
    rw [Kind.held_init,
      Kind.held_single (g := .netConnOpen) fun c => by cases c <;> simp [Kind.counts]] at h
    omega
  · have h := Kind.process_eq hmtc hclose (by rw [Kind.held_init]; omega)
    rw [Kind.held_init,
      Kind.held_single (g := .netConnClose) fun c => by cases c <;> simp [Kind.counts]] at h
    omega

def inetAddr : SockaddrStorage := { ssFamily := afInet }

def openSock (fd : ℤ) : List Op :=
  [.addSock fd sockDgram afInet 1, .doSetConnection fd inetAddr true 1]

def alternating : List Op :=
  openSock 3 ++ [.drain] ++ openSock 4 ++ [.drain, .doClose 3 "close" 9] ++
    [.drain, .drain, .drain, .doClose 4 "close" 9, .drain]

theorem opens_closes_conserved_alternating :
    let r := process allOn (init 9) alternating
    Kind.opened.emitted r.2 + (r.1.ctrs .netConnOpen).mtc.toNat =
      Kind.opened.recordedIn allOn (init 9) alternating ∧
    Kind.closed.emitted r.2 + (r.1.ctrs .netConnClose).mtc.toNat =
      Kind.closed.recordedIn allOn (init 9) alternating :=
  opens_closes_conserved rfl (by decide) (by decide) (by decide) (by decide)

/-- Two sockets are opened before the reporting thread runs. -/
theorem opens_closes_conserved_counted_twice :
    let ops := openSock 3 ++ openSock 4 ++ [.drain, .drain]
    let r := process allOn (init 9) ops
    Kind.opened.emitted r.2 = 3 ∧ (r.1.ctrs .netConnOpen).mtc = 0 ∧
      Kind.opened.recordedIn allOn (init 9) ops = 2 := by
  decide

end AppView.Metrics

import AppView.Framework.Runs

/-!
# Items that are sent in batches

A machine takes items, holds some of them for a while and sends messages, each of which
stands for a batch of items. `Conveys` says of a piece of work that nothing is lost,
repeated or put in another order on the way: the items held before and those taken are the
batches of the messages, one after the other, and the items held afterwards. Such pieces
compose (`Conveys.trans`), so **a run conveys what its steps convey** (`conveys_run`).
-/

namespace AppView.Framework

open List

variable {σ ι α ω β : Type*} {holds : σ → List α → Prop} {carries : ω → List α → Prop}

/-- From `s` to `s'`, with these items taken and these messages sent. -/
def Conveys (holds : σ → List α → Prop) (carries : ω → List α → Prop) (s : σ) (taken : List α)
    (sent : List ω) (s' : σ) : Prop :=
  ∀ held, holds s held → ∃ batches held', holds s' held' ∧ List.Forall₂ carries sent batches ∧
    held ++ taken = batches.flatten ++ held'

namespace Conveys

variable {s : σ}

theorem silent {s' : σ} {taken : List α} (h : ∀ held, holds s held → holds s' (held ++ taken)) :
    Conveys holds carries s taken [] s' := by
  intro held hheld
  exact ⟨[], held ++ taken, h held hheld, Forall₂.nil, rfl⟩

theorem refl (s : σ) : Conveys holds carries s [] [] s := by
  apply silent
  intro held hheld
  rwa [append_nil]

theorem single {s' : σ} {m : ω} (hempty : holds s' [])
    (h : ∀ held, holds s held → carries m held) : Conveys holds carries s [] [m] s' := by
  intro held hheld
  refine ⟨[held], [], hempty, Forall₂.cons (h held hheld) Forall₂.nil, ?_⟩
  rw [flatten_singleton]

theorem trans {t u : σ} {taken taken' : List α} {sent sent' : List ω}
    (h : Conveys holds carries s taken sent t) (h' : Conveys holds carries t taken' sent' u) :
    Conveys holds carries s (taken ++ taken') (sent ++ sent') u := by
  intro held hheld
  obtain ⟨batches, held₁, hheld₁, hbatches, heq⟩ := h held hheld
  obtain ⟨batches', held₂, hheld₂, hbatches', heq'⟩ := h' held₁ hheld₁
  refine ⟨batches ++ batches', held₂, hheld₂, rel_append hbatches hbatches', ?_⟩
  rw [← append_assoc, heq, append_assoc, heq', ← append_assoc, flatten_append]

end Conveys

/-- **A run conveys what its steps convey.** Only the messages that `p` selects count. -/
theorem conveys_run {step : σ → ι → σ × List ω} {taken : σ → ι → List α} {p : ω → Bool}
    (h : ∀ s a, Conveys holds carries s (taken s a) ((step s a).2.filter p) (step s a).1) (s : σ)
    (as : List ι) :
    Conveys holds carries s (gather step taken s as) ((run step s as).2.flatten.filter p)
      (run step s as).1 := by
  induction as generalizing s with
  | nil => exact Conveys.refl s
  | cons a as ih =>
    rw [run_cons, flatten_cons, filter_append]
    exact (h s a).trans (ih _)

theorem flatMap_of_carries {out : ω → List β} {item : α → List β}
    (h : ∀ m batch, carries m batch → out m = batch.flatMap item) {sent : List ω}
    {batches : List (List α)} (hsent : Forall₂ carries sent batches) :
    sent.flatMap out = batches.flatten.flatMap item := by
  induction hsent with
  | nil => rfl
  | cons hm _ ih =>
    rw [flatMap_cons, flatten_cons, flatMap_append, h _ _ hm, ih]

end AppView.Framework

/-!
# Going over a list with a state

A table that follows its entries one by one goes over a list: each entry changes the state and
brings something to light.  `gather` gives the state at the end and everything that came to light,
in order.  Like the reader of items it keeps what has come to light so far turned around, so a long
list takes no more room than its outcome; `gather_nil` and `gather_cons` are what is to be known
about it.
-/

namespace TransportStream

variable {σ α ω : Type}

/-- One step of `gather`, which keeps the outputs with the last one in front. -/
def gatherStep (step : σ → α → σ × List ω) (r : σ × List ω) (a : α) : σ × List ω :=
  let (next, outputs) := step r.1 a
  (next, outputs.reverse ++ r.2)

/-- The state after all elements of a list, and the outputs on the way. -/
def gather (step : σ → α → σ × List ω) (s : σ) (as : List α) : σ × List ω :=
  let (last, outputs) := as.foldl (gatherStep step) (s, [])
  (last, outputs.reverse)

theorem foldl_gatherStep (step : σ → α → σ × List ω) (s : σ) (outputs : List ω) (as : List α) :
    as.foldl (gatherStep step) (s, outputs) =
      ((gather step s as).1, (gather step s as).2.reverse ++ outputs) := by
  unfold gather
  dsimp only
  rw [List.reverse_reverse]
  induction as generalizing s outputs with
  | nil => rfl
  | cons a as ih =>
    simp only [List.foldl_cons, gatherStep]
    rw [ih _ (_ ++ outputs), ih _ (_ ++ [])]
    simp

@[simp] theorem gather_nil (step : σ → α → σ × List ω) (s : σ) : gather step s [] = (s, []) := rfl

/-- The first element is followed by the others, and so are its outputs. -/
theorem gather_cons (step : σ → α → σ × List ω) (s : σ) (a : α) (as : List α) :
    gather step s (a :: as) =
      ((gather step (step s a).1 as).1, (step s a).2 ++ (gather step (step s a).1 as).2) := by
  have h := foldl_gatherStep step (step s a).1 (step s a).2.reverse as
  simp only [gather, List.foldl_cons, gatherStep, List.append_nil]
  rw [h]
  simp [gather]

/-- What every step keeps holds of the state after all elements. -/
theorem gather_of_invariant {P : σ → Prop} {step : σ → α → σ × List ω}
    (h : ∀ s a, P s → P (step s a).1) {s : σ} (hs : P s) (as : List α) :
    P (gather step s as).1 := by
  induction as generalizing s with
  | nil => exact hs
  | cons a as ih =>
    rw [gather_cons]
    exact ih (h s a hs)

end TransportStream

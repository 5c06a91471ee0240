import ApexOS.Lib.Run

/-!
# What a machine holds on the way through

A machine that passes items on takes some in at a step, gives some out, and holds the rest, oldest
first. If every step accounts for every item, so does every run; if a step may lose some, a run
gives out a sublist of what came in: nothing twice, and nothing out of order.

## Main results

* `Run.flow_eq`: what was held and what came in is what went out and what is held
* `Run.flow_sublist`: the same of a machine that may lose items
-/

namespace Run

variable {σ ε ω α : Type*} (step : σ → ε → σ × ω) (holds : σ → List α)
  (took gave : ε × ω → List α)

theorem flow_eq {P : σ → ε → Prop}
    (hstep : ∀ s e, P s e →
      holds s ++ took (e, (step s e).2) = gave (e, (step s e).2) ++ holds (step s e).1)
    {s : σ} {es : List ε} (h : Always step s (fun _ s e => P s e) es) :
    holds s ++ (log step s es).flatMap took
      = (log step s es).flatMap gave ++ holds (final step s es) := by
  induction es generalizing s with
  | nil => simp
  | cons e es ih =>
    obtain ⟨he, hes⟩ := always_cons.mp h
    rw [log_cons, List.flatMap_cons, List.flatMap_cons, final_cons, ← List.append_assoc,
      hstep s e he, List.append_assoc, ih hes, List.append_assoc]

theorem flow_sublist
    (hstep : ∀ s e, (gave (e, (step s e).2) ++ holds (step s e).1).Sublist
      (holds s ++ took (e, (step s e).2))) (s : σ) (es : List ε) :
    ((log step s es).flatMap gave ++ holds (final step s es)).Sublist
      (holds s ++ (log step s es).flatMap took) := by
  induction es generalizing s with
  | nil => simp
  | cons e es ih =>
    rw [log_cons, List.flatMap_cons, List.flatMap_cons, final_cons, List.append_assoc,
      ← List.append_assoc (holds s)]
    exact ((ih _).append_left _).trans (by
      rw [← List.append_assoc]
      exact (hstep s e).append_right _)

end Run

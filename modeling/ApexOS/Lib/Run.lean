import Mathlib.Data.List.Basic
import Mathlib.Data.List.Induction

/-!
# Runs of a reactive machine, and what held at every point of one

A machine is its step function `step : σ → ε → σ × ω`: it answers each input `e : ε` with an
output `ω` and moves to a new state. Everything nondeterministic (a lost write, a minted random
number, the order in which tasks interleave) is part of the input, so a statement over every list
of inputs is a statement over every run.

Temporal statements are written against the *past*: the list of input and output pairs already
exchanged. `Always step s P es` says that `P past state input` held at every point of the run of
`es` from `s`, where `past` and `state` are those just before `input` was consumed. "Only if an
earlier call returned so" is then membership in `past`.

## Main definitions

* `Run.final`, `Run.log`: the state a run ends in, and what was exchanged on the way
* `Run.Always`: a predicate on past, state and input, at every point of a run
* `Run.Since`: something happened, and something else has not happened since

## Main results

* `Run.invariant`: an invariant of past and state that every admissible step keeps holds at the
  end of every run whose steps are all admissible
* `Run.Always.of_invariant`: and what the invariant implies holds at every point
-/

namespace Run

variable {σ ε ω : Type*}

/-- The state a run ends in. -/
def final (step : σ → ε → σ × ω) (s : σ) : List ε → σ
  | [] => s
  | e :: es => final step (step s e).1 es

/-- The inputs of a run, each with the output it got. -/
def log (step : σ → ε → σ × ω) (s : σ) : List ε → List (ε × ω)
  | [] => []
  | e :: es => (e, (step s e).2) :: log step (step s e).1 es

variable (step : σ → ε → σ × ω) (s : σ)

@[simp] theorem final_nil : final step s [] = s := rfl

@[simp] theorem log_nil : log step s [] = [] := rfl

@[simp] theorem final_cons (e : ε) (es : List ε) :
    final step s (e :: es) = final step (step s e).1 es := rfl

@[simp] theorem log_cons (e : ε) (es : List ε) :
    log step s (e :: es) = (e, (step s e).2) :: log step (step s e).1 es := rfl

@[simp] theorem final_append (es fs : List ε) :
    final step s (es ++ fs) = final step (final step s es) fs := by
  induction es generalizing s with
  | nil => rfl
  | cons e es ih => exact ih _

@[simp] theorem log_append (es fs : List ε) :
    log step s (es ++ fs) = log step s es ++ log step (final step s es) fs := by
  induction es generalizing s with
  | nil => rfl
  | cons e es ih => simp only [List.cons_append, log_cons, final_cons, ih]

@[simp] theorem map_fst_log (es : List ε) : (log step s es).map Prod.fst = es := by
  induction es generalizing s with
  | nil => rfl
  | cons e es ih => simp only [log_cons, List.map_cons, ih]

/-- An entry of what was exchanged, with the run up to it. -/
theorem exists_of_log_eq {es : List ε} {l₁ l₂ : List (ε × ω)} {x : ε × ω}
    (h : log step s es = l₁ ++ x :: l₂) : ∃ before after, es = before ++ x.1 :: after ∧
      l₁ = log step s before ∧ x.2 = (step (final step s before) x.1).2 ∧
      l₂ = log step (step (final step s before) x.1).1 after := by
  induction es generalizing s l₁ with
  | nil => simp at h
  | cons e es ih =>
    rw [log_cons] at h
    cases l₁ with
    | nil =>
      obtain ⟨rfl, rfl⟩ := List.cons.inj h
      exact ⟨[], es, rfl, rfl, rfl, rfl⟩
    | cons y l₁ =>
      obtain ⟨rfl, htail⟩ := List.cons.inj h
      obtain ⟨before, after, rfl, rfl, hx, hafter⟩ := ih (step s e).1 htail
      exact ⟨e :: before, after, rfl, rfl, hx, hafter⟩

/-! ### At every point of a run -/

/-- `P past state input` holds at every point of the run of `es` from `s`, with `past` and
`state` those just before `input` is consumed. -/
def Always (P : List (ε × ω) → σ → ε → Prop) (es : List ε) : Prop :=
  ∀ before e after, es = before ++ e :: after →
    P (log step s before) (final step s before) e

variable {step s} {P Q : List (ε × ω) → σ → ε → Prop}

theorem Always.nil : Always step s P [] := by
  intro before e after h
  simp at h

/-- A run extended by one input: the predicate held so far, and holds at the last input. -/
theorem always_concat {es : List ε} {e : ε} :
    Always step s P (es ++ [e]) ↔ Always step s P es ∧ P (log step s es) (final step s es) e := by
  constructor
  · intro h
    refine ⟨fun before f after hes => ?_, h es e [] rfl⟩
    exact h before f (after ++ [e]) (by simp [hes])
  · rintro ⟨h, hlast⟩ before f after hes
    rcases List.eq_nil_or_concat after with rfl | ⟨after, g, rfl⟩
    · obtain ⟨rfl, hef⟩ := List.append_inj' hes rfl
      obtain rfl : e = f := by simpa using hef
      exact hlast
    · rw [List.concat_eq_append, ← List.cons_append, ← List.append_assoc] at hes
      exact h before f after (List.append_inj' hes rfl).1

/-- The same from the front, for evaluating a given run. -/
theorem always_cons {e : ε} {es : List ε} :
    Always step s P (e :: es) ↔
      P [] s e ∧ Always step (step s e).1 (fun past => P ((e, (step s e).2) :: past)) es := by
  constructor
  · intro h
    refine ⟨h [] e es rfl, fun before f after hes => ?_⟩
    exact h (e :: before) f after (by rw [hes, List.cons_append])
  · rintro ⟨he, h⟩ before f after hes
    cases before with
    | nil =>
      obtain ⟨rfl, -⟩ : e = f ∧ es = after := by simpa using hes
      exact he
    | cons g before =>
      obtain ⟨rfl, hrest⟩ : e = g ∧ es = before ++ f :: after := by simpa using hes
      exact h before f after hrest

/-- A run can be checked input by input. -/
instance decidableAlways (step : σ → ε → σ × ω) : ∀ (s : σ) (P : List (ε × ω) → σ → ε → Prop)
    [∀ past t e, Decidable (P past t e)] (es : List ε), Decidable (Always step s P es)
  | _, _, _, [] => isTrue Always.nil
  | s, P, _, e :: es =>
    have := decidableAlways step (step s e).1 (fun past => P ((e, (step s e).2) :: past)) es
    decidable_of_iff' _ always_cons

theorem Always.mono (hPQ : ∀ past t e, P past t e → Q past t e) {es : List ε}
    (h : Always step s P es) : Always step s Q es :=
  fun before e after hes => hPQ _ _ _ (h before e after hes)

/-- What held along a run held along every shorter one. -/
theorem Always.of_append {es fs : List ε} (h : Always step s P (es ++ fs)) : Always step s P es :=
  fun before e after hes => h before e (after ++ fs) (by simp [hes])

/-- What is asked of states and inputs alone holds of the rest of a run, from where it is. -/
theorem Always.drop {P : σ → ε → Prop} {es fs : List ε}
    (h : Always step s (fun _ t e => P t e) (es ++ fs)) :
    Always step (final step s es) (fun _ t e => P t e) fs := by
  intro before f after hfs
  rw [← final_append]
  exact h (es ++ before) f after (by rw [hfs, List.append_assoc])

/-- **The invariant rule.** `I` relates the past to the state; it holds at the start and every
admissible step keeps it, so it holds at the end of every run of admissible steps. -/
theorem invariant {I : List (ε × ω) → σ → Prop} (h0 : I [] s)
    (hstep : ∀ past t e, I past t → P past t e → I (past ++ [(e, (step t e).2)]) (step t e).1)
    {es : List ε} (h : Always step s P es) : I (log step s es) (final step s es) := by
  induction es using List.reverseRecOn with
  | nil => exact h0
  | append_singleton es e ih =>
    obtain ⟨hes, he⟩ := always_concat.mp h
    simpa using hstep _ _ _ (ih hes) he

/-- The invariant rule, pointwise: whatever follows from the invariant and admissibility holds at
every point of the run. -/
theorem Always.of_invariant {I : List (ε × ω) → σ → Prop} (h0 : I [] s)
    (hstep : ∀ past t e, I past t → P past t e → I (past ++ [(e, (step t e).2)]) (step t e).1)
    (hQ : ∀ past t e, I past t → P past t e → Q past t e)
    {es : List ε} (h : Always step s P es) : Always step s Q es := by
  intro before e after hes
  have hbefore : Always step s P before := Always.of_append (hes ▸ h)
  exact hQ _ _ _ (invariant h0 hstep hbefore) (h before e after hes)

/-! ### Since -/

/-- Something satisfying `p` was exchanged, and nothing satisfying `q` since then. -/
def Since (p q : ε × ω → Prop) (past : List (ε × ω)) : Prop :=
  ∃ l₁ x l₂, past = l₁ ++ x :: l₂ ∧ p x ∧ ∀ y ∈ l₂, ¬ q y

theorem not_since_nil {p q : ε × ω → Prop} : ¬ Since p q [] := by
  rintro ⟨l₁, x, l₂, h, -⟩
  simp at h

theorem since_concat {p q : ε × ω → Prop} {past : List (ε × ω)} {x : ε × ω} :
    Since p q (past ++ [x]) ↔ p x ∨ Since p q past ∧ ¬ q x := by
  constructor
  · rintro ⟨l₁, y, l₂, h, hy, hl₂⟩
    rcases List.eq_nil_or_concat l₂ with rfl | ⟨l₂, z, rfl⟩
    · obtain ⟨-, hxy⟩ := List.append_inj' h rfl
      obtain rfl : x = y := by simpa using hxy
      exact Or.inl hy
    · rw [List.concat_eq_append, ← List.cons_append, ← List.append_assoc] at h
      obtain ⟨hpast, hxz⟩ := List.append_inj' h rfl
      obtain rfl : x = z := by simpa using hxz
      refine Or.inr ⟨⟨l₁, y, l₂, hpast, hy, fun w hw => hl₂ w ?_⟩, hl₂ x ?_⟩ <;> simp [*]
  · rintro (hx | ⟨⟨l₁, y, l₂, rfl, hy, hl₂⟩, hx⟩)
    · exact ⟨past, x, [], rfl, hx, by simp⟩
    · refine ⟨l₁, y, l₂ ++ [x], by simp, hy, fun w hw => ?_⟩
      rcases List.mem_append.mp hw with hw | hw
      · exact hl₂ w hw
      · rwa [List.mem_singleton.mp hw]

/-- What every input satisfies holds at every point. -/
theorem Always.of_forall_mem {p : ε → Prop} {es : List ε} (h : ∀ e ∈ es, p e) :
    Always step s (fun _ _ e => p e) es := by
  rintro before e after rfl
  exact h e (by simp)

theorem Always.true (es : List ε) : Always step s (fun _ _ _ => True) es :=
  fun _ _ _ _ => trivial

end Run

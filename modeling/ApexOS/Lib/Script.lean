import Mathlib.Data.List.Basic

/-!
# Scripts that can end early

A script does its effects in order. It comes to a value and goes on, or it has returned before its
end, or it has stopped on a failure that nothing catches; what it did before stays done.

An effect changes a state, by a function `step`. `Keeps step P s Q R` says that `s`, from a state
in which `P` holds, does not stop: it goes on with a value and a state of which `Q` holds, or it
has returned in a state of which `R` holds.

## Main definitions

* `Script`: the effects and how they end
* `Script.Keeps`: what holds at each end

## Main results

* `Script.Keeps.bind`: one script after another
-/

universe u

/-- How a script ends. -/
inductive Script.Flow (α : Type u)
  | go (a : α)
  | done
  | panic

/-- The effects of a script, and how it ends. -/
structure Script (ε α : Type u) where
  effects : List ε
  flow : Script.Flow α

namespace Script

variable {ε α β σ : Type u}

instance : Monad (Script ε) where
  pure a := ⟨[], .go a⟩
  bind s f :=
    match s.flow with
    | .go a => ⟨s.effects ++ (f a).effects, (f a).flow⟩
    | .done => ⟨s.effects, .done⟩
    | .panic => ⟨s.effects, .panic⟩

/-- One effect. -/
def tell (e : ε) : Script ε PUnit := ⟨[e], .go ⟨⟩⟩

/-- One effect, and the script has returned. -/
def answer (e : ε) : Script ε α := ⟨[e], .done⟩

/-- A value that may be missing; without it the script stops. -/
def unwrap : Option α → Script ε α
  | some a => pure a
  | none => ⟨[], .panic⟩

theorem bind_of_go {s : Script ε α} {a : α} (h : s.flow = .go a) (f : α → Script ε β) :
    s >>= f = ⟨s.effects ++ (f a).effects, (f a).flow⟩ := by
  simp only [bind, h]

theorem bind_of_done {s : Script ε α} (h : s.flow = .done) (f : α → Script ε β) :
    s >>= f = ⟨s.effects, .done⟩ := by
  simp only [bind, h]

/-- What holds where a script goes on, and where it has returned. -/
def Keeps (step : σ → ε → σ) (P : σ → Prop) (s : Script ε α) (Q : α → σ → Prop)
    (R : σ → Prop) : Prop :=
  ∀ x, P x →
    match s.flow with
    | .go a => Q a (s.effects.foldl step x)
    | .done => R (s.effects.foldl step x)
    | .panic => False

variable {step : σ → ε → σ} {P P' R : σ → Prop} {Q Q' : α → σ → Prop} {s : Script ε α}

theorem Keeps.pure {a : α} (h : ∀ x, P x → Q a x) : Keeps step P (pure a) Q R := h

theorem Keeps.tell {e : ε} {Q : PUnit → σ → Prop} (h : ∀ x, P x → Q ⟨⟩ (step x e)) :
    Keeps step P (tell e) Q R := h

theorem Keeps.answer {e : ε} (h : ∀ x, P x → R (step x e)) :
    Keeps step P (answer e : Script ε α) Q R := h

theorem Keeps.unwrap {o : Option α} {a : α} (ho : o = some a) (h : ∀ x, P x → Q a x) :
    Keeps step P (unwrap o) Q R := ho ▸ h

/-- What the first script leaves is where the second begins. -/
theorem Keeps.bind {f : α → Script ε β} {Q' : β → σ → Prop} (h : Keeps step P s Q R)
    (hf : ∀ a, s.flow = .go a → Keeps step (Q a) (f a) Q' R) : Keeps step P (s >>= f) Q' R := by
  intro x hx
  have hs := h x hx
  cases hflow : s.flow with
  | go a =>
    rw [hflow] at hs
    rw [bind_of_go hflow]
    simpa only [List.foldl_append] using hf a hflow _ hs
  | done =>
    rw [hflow] at hs
    rwa [bind_of_done hflow]
  | panic => simp [hflow] at hs

theorem Keeps.weaken (h : Keeps step P s Q R) (hP : ∀ x, P' x → P x)
    (hQ : ∀ a x, Q a x → Q' a x) : Keeps step P' s Q' R := by
  intro x hx
  have hs := h x (hP x hx)
  cases hflow : s.flow with
  | go a =>
    rw [hflow] at hs
    exact hQ a _ hs
  | done => simpa [hflow] using hs
  | panic => simp [hflow] at hs

end Script

import ApexOS.Lib.Run
import Mathlib.Data.List.Chain
import Mathlib.Data.List.Infix

/-!
# The latch of the connectivity state

`Latch` of `agentd/crates/core/src/connectivity.rs`: what is observed becomes the current state once
it has been observed often enough in a row. The latch keeps a candidate and a streak. What the
streak counts is told from the past: the observations since the last flip.

## Main definitions

* `Latch`: its streak is below its threshold
* `Latch.observe`: one observation
* `sinceFlip`, `reports`: the past, as the outputs tell it

## Main results

* `Latch.Counts`: the invariant, that the streak counts the candidate
* `Latch.observe_exact`: when the latch flips, and what it reports
-/

namespace ApexOS.Agentd.Connectivity

/-- `ConnectivityState`. -/
inductive ConnectivityState
  | full
  | degraded
  | minimal
  | isolated
  deriving DecidableEq, Repr

/-- `Latch`. The streak stays below the threshold, so it never outgrows the word it is kept in. -/
structure Latch where
  current : ConnectivityState
  candidate : ConnectivityState
  streak : ℕ
  threshold : ℕ
  streak_lt : streak < threshold

namespace Latch

/-- `Latch::new`. -/
def new (initial : ConnectivityState) (threshold : ℕ) : Latch where
  current := initial
  candidate := initial
  streak := 0
  threshold := max threshold 1
  streak_lt := Nat.lt_of_lt_of_le Nat.one_pos (Nat.le_max_right threshold 1)

/-- The streak with one more observation. -/
def streakWith (l : Latch) (observed : ConnectivityState) : ℕ :=
  if observed = l.candidate then l.streak + 1 else 1

/-- `Latch::observe`. -/
def observe (l : Latch) (observed : ConnectivityState) :
    Latch × Option (ConnectivityState × ConnectivityState) :=
  if observed = l.current then
    ({ l with
      candidate := observed
      streak := 0
      streak_lt := Nat.zero_lt_of_lt l.streak_lt }, none)
  else if h : l.threshold ≤ l.streakWith observed then
    ({ l with
      current := observed
      candidate := observed
      streak := 0
      streak_lt := Nat.zero_lt_of_lt l.streak_lt }, some (l.current, observed))
  else
    ({ l with
      candidate := observed
      streak := l.streakWith observed
      streak_lt := Nat.lt_of_not_le h }, none)

end Latch

/-! ### The past -/

/-- An observation, and the flip that was reported. -/
abbrev Exchange := ConnectivityState × Option (ConnectivityState × ConnectivityState)

/-- What was observed since the last flip. -/
def sinceFlip (past : List Exchange) : List ConnectivityState :=
  past.foldl (fun since x => if x.2.isSome then [] else since ++ [x.1]) []

/-- The flips that were reported. -/
def reports (past : List Exchange) : List (ConnectivityState × ConnectivityState) :=
  past.filterMap Prod.snd

theorem sinceFlip_concat (past : List Exchange) (x : Exchange) :
    sinceFlip (past ++ [x]) = if x.2.isSome then [] else sinceFlip past ++ [x.1] := by
  rw [sinceFlip, List.foldl_append]
  rfl

theorem reports_concat (past : List Exchange) (x : Exchange) :
    reports (past ++ [x]) = reports past ++ x.2.toList := by
  obtain ⟨o, flip⟩ := x
  rw [reports, List.filterMap_append]
  cases flip <;> rfl

/-- So many of one state at the end, with one more observation. -/
theorem replicate_succ_suffix_concat {α : Type*} {n : ℕ} {a b : α} {l : List α} :
    List.replicate (n + 1) a <:+ l ++ [b] ↔ a = b ∧ List.replicate n a <:+ l := by
  rw [List.replicate_succ', ← List.reverse_prefix, List.reverse_append, List.reverse_append,
    List.reverse_singleton, List.reverse_singleton, List.singleton_append, List.singleton_append,
    List.cons_prefix_cons, List.reverse_prefix]

/-! ### The invariant -/

namespace Latch

variable {initial : ConnectivityState} {t : ℕ} {past : List Exchange} {l : Latch}

/-- The streak counts the candidate at the end of what was observed since the last flip, and of the
other states but the current one there is none at the end. -/
structure Counts (initial : ConnectivityState) (t : ℕ) (past : List Exchange) (l : Latch) :
    Prop where
  threshold : l.threshold = max t 1
  counts : ∀ s, s ≠ l.current → ∀ n, List.replicate n s <:+ sinceFlip past ↔
    n ≤ if s = l.candidate then l.streak else 0
  chained : (reports past).IsChain fun x y => x.2 = y.1
  first : ∀ x ∈ (reports past).head?, x.1 = initial
  last : l.current = ((reports past).getLast?.map Prod.snd).getD initial

theorem counts_new : Counts initial t [] (new initial t) where
  threshold := rfl
  counts s _ n := by
    rw [show (new initial t).streak = 0 from rfl, ite_self, Nat.le_zero]
    cases n <;> simp [sinceFlip]
  chained := .nil
  first _ hx := by cases hx
  last := rfl

/-- So many of a state are at the end, with one more observation. -/
theorem Counts.suffix_iff (h : Counts initial t past l) {o s : ConnectivityState}
    (hs : s ≠ l.current) {n : ℕ} : List.replicate (n + 1) s <:+ sinceFlip past ++ [o] ↔
      s = o ∧ n + 1 ≤ l.streakWith o := by
  rw [replicate_succ_suffix_concat, h.counts s hs]
  refine and_congr_right fun hso => ?_
  rw [streakWith, ← hso]
  split <;> omega

/-- An observation that is no flip. -/
theorem Counts.stay (h : Counts initial t past l) {o : ConnectivityState} {l' : Latch}
    (hcurrent : l'.current = l.current) (hthreshold : l'.threshold = l.threshold)
    (hcounts : ∀ s, s ≠ l.current → ∀ n, List.replicate n s <:+ sinceFlip past ++ [o] ↔
      n ≤ if s = l'.candidate then l'.streak else 0) :
    Counts initial t (past ++ [(o, none)]) l' := by
  refine ⟨hthreshold.trans h.threshold, ?_, ?_, ?_, ?_⟩
  · rw [sinceFlip_concat, hcurrent]
    exact hcounts
  all_goals rw [reports_concat, Option.toList_none, List.append_nil]
  · exact h.chained
  · exact h.first
  · exact hcurrent.trans h.last

/-- A flip. -/
theorem Counts.flip (h : Counts initial t past l) {o : ConnectivityState} {l' : Latch}
    (hcurrent : l'.current = o) (hthreshold : l'.threshold = l.threshold)
    (hstreak : l'.streak = 0) :
    Counts initial t (past ++ [(o, some (l.current, o))]) l' := by
  refine ⟨hthreshold.trans h.threshold, fun s _ n => ?_, ?_, fun x hx => ?_, ?_⟩
  · rw [sinceFlip_concat, if_pos (by rfl), hstreak, ite_self, Nat.le_zero]
    cases n <;> simp
  · rw [reports_concat]
    refine List.isChain_append.mpr ⟨h.chained, .singleton _, fun x hx y hy => ?_⟩
    obtain rfl := Option.some.inj hy
    rw [h.last, Option.mem_def.mp hx]
    rfl
  · rw [reports_concat] at hx
    cases hreports : reports past with
    | nil =>
      rw [hreports] at hx
      obtain rfl := Option.some.inj hx
      rw [h.last, hreports]
      rfl
    | cons y ys =>
      rw [hreports] at hx
      exact h.first x (by rw [hreports]; exact hx)
  · rw [reports_concat, hcurrent]
    simp

/-- **One observation** keeps the invariant. -/
theorem Counts.observe (h : Counts initial t past l) (o : ConnectivityState) :
    Counts initial t (past ++ [(o, (l.observe o).2)]) (l.observe o).1 := by
  rw [Latch.observe]
  split_ifs with hcurrent hflip
  · refine h.stay rfl rfl fun s hs n => ?_
    have hne : s ≠ o := fun heq => hs (heq.trans hcurrent)
    rw [if_neg hne]
    cases n with
    | zero => simp
    | succ n => simp [replicate_succ_suffix_concat, hne]
  · exact h.flip rfl rfl rfl
  · refine h.stay rfl rfl fun s hs n => ?_
    cases n with
    | zero => simp
    | succ n =>
      rw [h.suffix_iff hs]
      split_ifs with hso
      · simp [hso]
      · simp [hso]

/-- **The latch flips** to what is observed exactly when it is not the current state and the last
`max t 1` observations since the last flip are all of it; else the current state stays. The flips
that are reported chain, from the initial state to the current one. -/
theorem observe_exact (initial : ConnectivityState) (t : ℕ) (observations : List ConnectivityState)
    (o : ConnectivityState) :
    let l := Run.final observe (new initial t) observations
    let past := Run.log observe (new initial t) observations
    (∀ x, (l.observe o).2 = some x ↔ x = (l.current, o) ∧ o ≠ l.current ∧
      List.replicate (max t 1) o <:+ sinceFlip past ++ [o]) ∧
    (l.observe o).1.current = (if (l.observe o).2.isSome then o else l.current) ∧
    ((reports past).IsChain fun x y => x.2 = y.1) ∧
    (∀ x ∈ (reports past).head?, x.1 = initial) ∧
    l.current = ((reports past).getLast?.map Prod.snd).getD initial := by
  intro l past
  have h : Counts initial t past l :=
    Run.invariant (I := Counts initial t) (P := fun _ _ _ => True) counts_new
      (fun _ _ e hcounts _ => hcounts.observe e) (Run.Always.true _)
  have hflips : o ≠ l.current → (List.replicate (max t 1) o <:+ sinceFlip past ++ [o] ↔
      l.threshold ≤ l.streakWith o) := by
    intro ho
    obtain ⟨n, hn⟩ : ∃ n, max t 1 = n + 1 := ⟨max t 1 - 1, by omega⟩
    rw [hn, h.suffix_iff ho, h.threshold, hn]
    exact and_iff_right rfl
  refine ⟨fun x => ?_, ?_, h.chained, h.first, h.last⟩
  · rw [observe]
    split_ifs with hcurrent hflip
    · exact iff_of_false (fun hx => by cases hx) fun hx => hx.2.1 hcurrent
    · rw [Option.some.injEq, hflips hcurrent, eq_comm]
      exact (and_iff_left ⟨hcurrent, hflip⟩).symm
    · rw [hflips hcurrent]
      exact iff_of_false (fun hx => by cases hx) fun hx => hflip hx.2.2
  · rw [observe]
    split_ifs with hcurrent hflip <;> simp_all

end Latch

/-- A flap starts the streak anew. -/
example : (Run.log Latch.observe (.new .full 3)
    [.isolated, .isolated, .full, .isolated, .isolated, .isolated]).map Prod.snd =
      [none, none, none, none, none, some (.full, .isolated)] := by decide

end ApexOS.Agentd.Connectivity

import Mathlib.Data.List.Induction
import Mathlib.Data.Nat.ModEq
import Mathlib.Algebra.Group.Nat.Defs
import Mathlib.Tactic.Common

/-!
# A breaker

Failures in a row are counted; every `trip`-th of them shuts something for a while, and a success
takes all of it back. What a breaker says is a function of the failures since the last success.

## Main definitions

* `Breaker`, `Breaker.record`, `Breaker.isOpen`: the breaker
* `Breaker.streak`: when the failures since the last success happened, the latest first

## Main results

* `Breaker.records_eq`: the breaker after any outcomes
* `Breaker.isOpen_iff`: it is open for a while after the latest failure that made a full number
* `Breaker.length_le_trip`: where nobody tries while it is open, no more than `trip` failures in a
  row fall into one such while
-/

/-- The failures that are counted, and until when the breaker is open. -/
structure Breaker where
  failures : ℕ
  openUntil : Option ℕ
  deriving DecidableEq, Repr

namespace Breaker

/-- An outcome, and its time. -/
structure Outcome where
  ok : Bool
  time : ℕ
  deriving DecidableEq, Repr

def fresh : Breaker := ⟨0, none⟩

def isOpen (b : Breaker) (now : ℕ) : Bool := b.openUntil.any fun t => now < t

variable (trip cooldown : ℕ)

def record (b : Breaker) (x : Outcome) : Breaker :=
  if x.ok then ⟨0, none⟩
  else if trip ≤ b.failures + 1 then ⟨0, some (x.time + cooldown)⟩
  else ⟨b.failures + 1, b.openUntil⟩

def records (b : Breaker) (past : List Outcome) : Breaker := past.foldl (record trip cooldown) b

/-- The failures since the last success, the latest first. -/
def streak (past : List Outcome) : List ℕ :=
  (past.reverse.takeWhile fun x => !x.ok).map Outcome.time

variable {trip cooldown}

@[simp] theorem streak_nil : streak [] = [] := rfl

theorem streak_concat (past : List Outcome) (x : Outcome) :
    streak (past ++ [x]) = if x.ok then [] else x.time :: streak past := by
  rw [streak, List.reverse_concat, List.takeWhile_cons]
  cases x.ok <;> rfl

theorem records_concat (b : Breaker) (past : List Outcome) (x : Outcome) :
    records trip cooldown b (past ++ [x]) =
      (records trip cooldown b past).record trip cooldown x :=
  List.foldl_append

theorem succ_mod_trip (htrip : 0 < trip) (m : ℕ) :
    (trip ≤ m % trip + 1 → (m + 1) % trip = 0) ∧
      (m % trip + 1 < trip → (m + 1) % trip = m % trip + 1) := by
  have hlt := Nat.mod_lt m htrip
  constructor
  · intro h
    have heq : m % trip + 1 = trip := by omega
    rw [Nat.add_mod, ← Nat.mod_add_mod, Nat.mod_mod, Nat.add_mod_mod, heq, Nat.mod_self]
  · intro h
    rw [← Nat.mod_add_mod, Nat.mod_eq_of_lt h]

/-- **The breaker after any outcomes**: what is counted is what is left over, and it was shut by
the failure before those. -/
theorem records_eq (htrip : 0 < trip) (past : List Outcome) :
    records trip cooldown fresh past =
      ⟨(streak past).length % trip,
        if (streak past).length < trip then none
        else (streak past)[(streak past).length % trip]?.map (· + cooldown)⟩ := by
  induction past using List.reverseRecOn with
  | nil => simp [records, fresh, htrip]
  | append_singleton past x ih =>
    rw [records_concat, ih, streak_concat, record]
    cases hok : x.ok with
    | true => simp [htrip]
    | false =>
      obtain ⟨hfull, hnot⟩ := succ_mod_trip htrip (streak past).length
      simp only [Bool.false_eq_true, if_false, List.length_cons]
      by_cases h : trip ≤ (streak past).length % trip + 1
      · -- the failure that makes a full number
        have hle : ¬ (streak past).length + 1 < trip := by
          have := Nat.mod_le (streak past).length trip
          omega
        rw [if_pos h, hfull h, if_neg hle]
        rfl
      · rw [if_neg h, hnot (not_le.mp h)]
        by_cases hlt : (streak past).length + 1 < trip
        · rw [if_pos hlt, if_pos ((Nat.lt_succ_self _).trans hlt)]
        · have hge : ¬ (streak past).length < trip := by
            intro hlt'
            rw [Nat.mod_eq_of_lt hlt'] at h
            omega
          rw [if_neg hlt, if_neg hge, List.getElem?_cons_succ]

/-- **When the breaker is open.** -/
theorem isOpen_iff (htrip : 0 < trip) (past : List Outcome) (now : ℕ) :
    (records trip cooldown fresh past).isOpen now = true ↔ trip ≤ (streak past).length ∧
      ∃ t, (streak past)[(streak past).length % trip]? = some t ∧ now < t + cooldown := by
  rw [records_eq htrip, isOpen]
  by_cases h : (streak past).length < trip
  · simp [h]
  · rw [if_neg h]
    cases (streak past)[(streak past).length % trip]? <;> simp [not_lt.mp h]

/-! ### Where nobody tries while it is open -/

/-- Outcomes in order of time, none of them while the breaker was open. -/
structure Guarded (trip cooldown : ℕ) (past : List Outcome) : Prop where
  sorted : (past.map Outcome.time).Pairwise (· ≤ ·)
  closed : ∀ before x after, past = before ++ x :: after →
    (records trip cooldown fresh before).isOpen x.time = false

theorem Guarded.of_concat {past : List Outcome} {x : Outcome}
    (h : Guarded trip cooldown (past ++ [x])) : Guarded trip cooldown past where
  sorted := by
    have hsorted := h.sorted
    rw [List.map_append, List.pairwise_append] at hsorted
    exact hsorted.1
  closed before y after hpast := h.closed before y (after ++ [x]) (by simp [hpast])

theorem Guarded.concat {past : List Outcome} {x : Outcome} (h : Guarded trip cooldown past)
    (hlater : ∀ y ∈ past, y.time ≤ x.time)
    (hclosed : (records trip cooldown fresh past).isOpen x.time = false) :
    Guarded trip cooldown (past ++ [x]) where
  sorted := by
    rw [List.map_append, List.pairwise_append]
    refine ⟨h.sorted, List.pairwise_singleton _ _, fun t ht t' ht' => ?_⟩
    obtain ⟨y, hy, rfl⟩ := List.mem_map.mp ht
    rw [List.map_singleton, List.mem_singleton] at ht'
    rw [ht']
    exact hlater y hy
  closed before y after hpast := by
    rcases List.eq_nil_or_concat after with rfl | ⟨after, z, rfl⟩
    · obtain ⟨rfl, hy⟩ := List.append_inj' hpast rfl
      obtain rfl := List.singleton_inj.mp hy
      exact hclosed
    · rw [List.concat_eq_append, ← List.cons_append, ← List.append_assoc] at hpast
      exact h.closed before y after (List.append_inj' hpast rfl).1

theorem guarded_nil : Guarded trip cooldown [] where
  sorted := List.Pairwise.nil
  closed before x after h := by simp at h

theorem mem_streak {past : List Outcome} {t : ℕ} (h : t ∈ streak past) :
    t ∈ past.map Outcome.time := by
  obtain ⟨x, hx, rfl⟩ := List.mem_map.mp h
  exact List.mem_map_of_mem (List.mem_reverse.mp (List.takeWhile_subset _ hx))

theorem pairwise_streak {past : List Outcome}
    (h : (past.map Outcome.time).Pairwise (· ≤ ·)) : (streak past).Pairwise (· ≥ ·) := by
  induction past using List.reverseRecOn with
  | nil => exact List.Pairwise.nil
  | append_singleton past x ih =>
    rw [List.map_append, List.pairwise_append] at h
    rw [streak_concat]
    split
    · exact List.Pairwise.nil
    · exact List.pairwise_cons.mpr ⟨fun t ht => h.2.2 t (mem_streak ht) x.time
        (List.mem_singleton_self _), ih h.1⟩

/-- What comes after an entry of a list that falls is no greater. -/
theorem le_of_mem_drop {l : List ℕ} (hl : l.Pairwise (· ≥ ·)) {i t t' : ℕ} (ht : l[i]? = some t)
    (ht' : t' ∈ l.drop i) : t' ≤ t := by
  obtain ⟨hi, rfl⟩ := List.getElem?_eq_some_iff.mp ht
  rw [List.drop_eq_getElem_cons hi] at ht'
  obtain rfl | ht' := List.mem_cons.mp ht'
  · exact le_rfl
  · have hdrop := hl.sublist (List.drop_sublist i l)
    rw [List.drop_eq_getElem_cons hi] at hdrop
    exact (List.pairwise_cons.mp hdrop).1 t' ht'

/-- **No more than `trip` failures in a row** fall into a time as long as the breaker stays open. -/
theorem length_le_trip (htrip : 0 < trip) {past : List Outcome} (h : Guarded trip cooldown past)
    (start : ℕ) :
    ((streak past).filter fun t => start ≤ t ∧ t < start + cooldown).length ≤ trip := by
  induction past using List.reverseRecOn with
  | nil => exact Nat.zero_le _
  | append_singleton past x ih =>
    have ih := ih h.of_concat
    rw [streak_concat]
    split
    · exact Nat.zero_le _
    rw [List.filter_cons]
    split
    · rename_i hx
      rw [decide_eq_true_eq] at hx
      rw [List.length_cons]
      by_cases hfew : (streak past).length < trip
      · exact (Nat.succ_le_succ (List.length_filter_le _ _)).trans hfew
      · -- it was shut before this failure, and what shut it lies before the time
        have hmod := Nat.mod_lt (streak past).length htrip
        have hlt := hmod.trans_le (not_lt.mp hfew)
        obtain ⟨t, ht⟩ : ∃ t, (streak past)[(streak past).length % trip]? = some t :=
          ⟨_, List.getElem?_eq_getElem hlt⟩
        have hclosed : t + cooldown ≤ x.time := by
          by_contra hopen
          have hopen' : (records trip cooldown fresh past).isOpen x.time = true :=
            (isOpen_iff htrip past x.time).mpr ⟨not_lt.mp hfew, t, ht, not_le.mp hopen⟩
          rw [h.closed past x [] rfl] at hopen'
          cases hopen'
        have hsorted := pairwise_streak h.of_concat.sorted
        have hold : ((streak past).drop ((streak past).length % trip)).filter
            (fun t => start ≤ t ∧ t < start + cooldown) = [] := by
          rw [List.filter_eq_nil_iff]
          intro t' ht'
          have hle := le_of_mem_drop hsorted ht ht'
          rw [decide_eq_true_eq]
          omega
        have hcount : ((streak past).filter fun t => start ≤ t ∧ t < start + cooldown).length ≤
            (streak past).length % trip := by
          conv_lhs =>
            rw [← List.take_append_drop ((streak past).length % trip) (streak past),
              List.filter_append, hold, List.append_nil]
          exact (List.length_filter_le _ _).trans (List.length_take_le _ _)
        exact (Nat.succ_le_succ hcount).trans hmod
    · exact ih

end Breaker

import ApexOS.Lib.Run
import Mathlib.Data.List.Dedup
import Mathlib.Data.List.Induction
import Mathlib.Data.List.Perm.Subperm
import Mathlib.Tactic.Common

/-!
# What came lately

A queue of bounded length that remembers what was taken in: what is in it is refused, anything else
is taken in, and where the queue is full the oldest is forgotten.

## Main definitions

* `Recent`, `Recent.accept`: the queue
* `Recent.accepted`: what was taken in, in order

## Main results

* `Recent.items_eq`: the queue is the end of what was taken in
* `Recent.nodup_of_infix`: whatever comes close together was taken in once
* `Recent.mem_accepted`: everything that comes is taken in at some time
* `Recent.nodup_accepted`: where few different ones come, each is taken in once
-/

/-- A queue of at most `capacity` items, the oldest first. -/
structure Recent (α : Type*) where
  capacity : ℕ
  items : List α
  deriving Repr

namespace Recent

variable {α : Type*} [DecidableEq α]

/-- Take an item in, unless it is there. -/
def accept (r : Recent α) (a : α) : Recent α × Bool :=
  if a ∈ r.items then (r, false)
  else
    let items := if r.capacity ≤ r.items.length then r.items.tail else r.items
    ({ r with items := items ++ [a] }, true)

/-- What was taken in, by the past. -/
def accepted (past : List (α × Bool)) : List α := (past.filter Prod.snd).map Prod.fst

/-- The last `n` items. -/
def latest (n : ℕ) (l : List α) : List α := l.drop (l.length - n)

omit [DecidableEq α] in
theorem accepted_concat (past : List (α × Bool)) (x : α × Bool) :
    accepted (past ++ [x]) = accepted past ++ if x.2 then [x.1] else [] := by
  rw [accepted, List.filter_append, List.map_append]
  cases h : x.2 <;> simp [accepted, h]

omit [DecidableEq α] in
theorem length_latest (n : ℕ) (l : List α) : (latest n l).length = min n l.length := by
  rw [latest, List.length_drop]
  omega

omit [DecidableEq α] in
theorem latest_concat {n : ℕ} (hn : 0 < n) (l : List α) (a : α) : latest n (l ++ [a]) =
    (if n ≤ (latest n l).length then (latest n l).tail else latest n l) ++ [a] := by
  have hlength : l.length + 1 - n ≤ l.length := by omega
  rw [length_latest, latest, List.length_append, List.length_singleton,
    List.drop_append_of_le_length hlength]
  refine congrArg (· ++ [a]) ?_
  split
  · rw [latest, List.tail_drop]
    congr 1
    omega
  · rw [latest]
    congr 1
    omega

omit [DecidableEq α] in
theorem mem_latest_of_suffix {n : ℕ} {w l : List α} (hw : w <:+ l) (hlength : w.length ≤ n) {a : α}
    (ha : a ∈ w) : a ∈ latest n l := by
  obtain ⟨front, rfl⟩ := hw
  rw [latest, List.length_append, List.mem_iff_getElem?]
  obtain ⟨i, hi⟩ := List.mem_iff_getElem?.mp ha
  refine ⟨front.length - (front.length + w.length - n) + i, ?_⟩
  rw [List.getElem?_drop, List.getElem?_append_right (by omega), ← hi]
  congr 1
  omega

variable {capacity : ℕ}

/-- What the queue holds, after anything: the end of what was taken in. -/
theorem items_eq (hpos : 0 < capacity) (xs : List α) :
    Run.final accept ⟨capacity, []⟩ xs =
      ⟨capacity, latest capacity (accepted (Run.log accept ⟨capacity, []⟩ xs))⟩ := by
  refine Run.invariant (I := fun past (r : Recent α) =>
    r = ⟨capacity, latest capacity (accepted past)⟩) ?_ ?_ (Run.Always.true xs)
  · simp [latest, accepted]
  · rintro past _ a rfl -
    simp only [accept]
    split
    · simp [accepted_concat]
    · rw [accepted_concat, if_pos rfl, latest_concat hpos]

/-- **What is refused.** -/
theorem accept_iff (hpos : 0 < capacity) (xs : List α) (a : α) :
    ((Run.final accept ⟨capacity, []⟩ xs).accept a).2 = true ↔
      a ∉ latest capacity (accepted (Run.log accept ⟨capacity, []⟩ xs)) := by
  rw [items_eq hpos, accept]
  split
  · rename_i hmem
    exact iff_of_false (by rintro ⟨⟩) (not_not_intro hmem)
  · rename_i hmem
    exact iff_of_true rfl hmem

/-- One more item: it is taken in, or it is among the latest. -/
theorem accepted_step (hpos : 0 < capacity) (xs : List α) (a : α) :
    (a ∈ latest capacity (accepted (Run.log accept ⟨capacity, []⟩ xs)) ∧
      accepted (Run.log accept ⟨capacity, []⟩ (xs ++ [a])) =
        accepted (Run.log accept ⟨capacity, []⟩ xs)) ∨
    (a ∉ latest capacity (accepted (Run.log accept ⟨capacity, []⟩ xs)) ∧
      accepted (Run.log accept ⟨capacity, []⟩ (xs ++ [a])) =
        accepted (Run.log accept ⟨capacity, []⟩ xs) ++ [a]) := by
  have hiff := accept_iff hpos xs a
  rw [Run.log_append, Run.log_cons, Run.log_nil, accepted_concat]
  cases haccept : ((Run.final accept ⟨capacity, []⟩ xs).accept a).2 with
  | true => exact .inr ⟨hiff.mp haccept, rfl⟩
  | false =>
    refine .inl ⟨by_contra fun hnot => ?_, List.append_nil _⟩
    rw [hiff.mpr hnot] at haccept
    cases haccept

/-- **Whatever comes close together was taken in once.** -/
theorem nodup_of_infix (hpos : 0 < capacity) (xs : List α) {w : List α}
    (hw : w <:+: accepted (Run.log accept ⟨capacity, []⟩ xs)) (hlength : w.length ≤ capacity + 1) :
    w.Nodup := by
  induction xs using List.reverseRecOn generalizing w with
  | nil =>
    rw [List.infix_nil.mp hw]
    exact List.nodup_nil
  | append_singleton xs a ih =>
    obtain ⟨-, heq⟩ | ⟨hnew, heq⟩ := accepted_step hpos xs a
    · exact ih (heq ▸ hw) hlength
    · rw [heq, List.infix_concat_iff] at hw
      obtain hsuffix | hinfix := hw
      · obtain rfl | ⟨w, rfl, hw⟩ := List.suffix_concat_iff.mp hsuffix
        · exact List.nodup_nil
        · rw [List.length_append, List.length_singleton] at hlength
          refine List.nodup_append.mpr ⟨ih hw.isInfix (by omega), List.nodup_singleton a, ?_⟩
          rintro b hb _ hb' rfl
          rw [List.mem_singleton.mp hb'] at hb
          exact hnew (mem_latest_of_suffix hw (by omega) hb)
      · exact ih hinfix hlength

/-- **Everything that comes is taken in** at some time, and nothing else. -/
theorem mem_accepted (hpos : 0 < capacity) (xs : List α) (a : α) :
    a ∈ accepted (Run.log accept ⟨capacity, []⟩ xs) ↔ a ∈ xs := by
  induction xs using List.reverseRecOn with
  | nil => rfl
  | append_singleton xs b ih =>
    rw [List.mem_append, List.mem_singleton, ← ih]
    obtain ⟨hold, heq⟩ | ⟨-, heq⟩ := accepted_step hpos xs b
    · rw [heq]
      refine (or_iff_left_of_imp ?_).symm
      rintro rfl
      exact List.mem_of_mem_drop hold
    · rw [heq, List.mem_append, List.mem_singleton]

/-- **Where few different ones come**, each is taken in once. -/
theorem nodup_accepted (hpos : 0 < capacity) (xs : List α) (hfew : xs.dedup.length ≤ capacity) :
    (accepted (Run.log accept ⟨capacity, []⟩ xs)).Nodup := by
  induction xs using List.reverseRecOn with
  | nil => exact List.nodup_nil
  | append_singleton xs a ih =>
    have hmono : xs.dedup.length ≤ (xs ++ [a]).dedup.length := by
      refine (List.subperm_of_subset (List.nodup_dedup xs) fun b hb => ?_).length_le
      exact List.mem_dedup.mpr (List.mem_append_left _ (List.mem_dedup.mp hb))
    have ih := ih (Nat.le_trans hmono hfew)
    obtain ⟨-, heq⟩ | ⟨hnew, heq⟩ := accepted_step hpos xs a
    · rw [heq]
      exact ih
    · -- as few as that, none of them is forgotten
      have hle : (accepted (Run.log accept ⟨capacity, []⟩ xs)).length ≤ capacity := by
        refine Nat.le_trans ?_ (Nat.le_trans hmono hfew)
        refine (List.subperm_of_subset ih fun b hb => ?_).length_le
        exact List.mem_dedup.mpr ((mem_accepted hpos xs b).mp hb)
      rw [heq]
      refine List.nodup_append.mpr ⟨ih, List.nodup_singleton a, ?_⟩
      rintro b hb _ hb' rfl
      rw [List.mem_singleton.mp hb'] at hb
      exact hnew (mem_latest_of_suffix List.suffix_rfl hle hb)

end Recent

import Mathlib.Data.List.DropRight

/-!
# The words of a text

A text over any characters, some of which separate. Its words are what stands between separators.
Where two texts meet at a separator, the words of the whole are those of the one and then those of
the other; what else is said of words follows.

## Main definitions

* `Words.words`: the words of a text
* `Words.trim`: the text without separators at its ends

## Main results

* `Words.words_append_cons`: words on both sides of a separator
* `Words.words_trim`, `Words.words_intercalate`: trimming and joining keep words
-/

namespace Words

variable {α : Type*} (sep : α → Bool)

/-- The words of a text. -/
def words (l : List α) : List (List α) := (l.splitOnP sep).filter fun w => !w.isEmpty

/-- The text without separators at its ends. -/
def trim (l : List α) : List α := (l.dropWhile sep).rdropWhile sep

variable {sep} {c : α}

@[simp] theorem words_nil : words sep [] = [] := by simp [words]

/-- **Words on both sides of a separator.** -/
theorem words_append_cons (hc : sep c = true) (x y : List α) :
    words sep (x ++ c :: y) = words sep x ++ words sep y := by
  rw [words, List.splitOnP_append_cons x y hc, List.filter_append, words, words]

theorem words_cons (hc : sep c = true) (y : List α) : words sep (c :: y) = words sep y := by
  simpa using words_append_cons hc [] y

theorem words_append_of_all {y : List α} (hy : ∀ c ∈ y, sep c = true) (x : List α) :
    words sep (x ++ y) = words sep x := by
  induction y generalizing x with
  | nil => rw [List.append_nil]
  | cons c y ih =>
    have hrest := ih (fun d hd => hy d (List.mem_cons_of_mem _ hd)) []
    rw [words_append_cons (hy c List.mem_cons_self), ← List.nil_append y, hrest, words_nil,
      List.append_nil]

theorem words_of_all_append {x : List α} (hx : ∀ c ∈ x, sep c = true) (y : List α) :
    words sep (x ++ y) = words sep y := by
  induction x with
  | nil => rfl
  | cons c x ih =>
    rw [List.cons_append, words_cons (hx c List.mem_cons_self)]
    exact ih fun d hd => hx d (List.mem_cons_of_mem _ hd)

@[simp] theorem words_dropWhile (l : List α) : words sep (l.dropWhile sep) = words sep l := by
  conv_rhs => rw [← List.takeWhile_append_dropWhile (p := sep) (l := l)]
  exact (words_of_all_append (fun _ => List.mem_takeWhile_imp) _).symm

@[simp] theorem words_rdropWhile (l : List α) : words sep (l.rdropWhile sep) = words sep l := by
  conv_rhs => rw [← List.rdropWhile_append_rtakeWhile (p := sep) (l := l)]
  exact (words_append_of_all (fun _ => List.mem_rtakeWhile_imp) _).symm

/-- **Trimming** keeps the words. -/
@[simp] theorem words_trim (l : List α) : words sep (trim sep l) = words sep l := by
  rw [trim, words_rdropWhile, words_dropWhile]

theorem words_of_trim_eq_nil {l : List α} (h : trim sep l = []) : words sep l = [] := by
  rw [← words_trim, h, words_nil]

theorem trim_eq_nil_iff {l : List α} : trim sep l = [] ↔ ∀ c ∈ l, sep c = true := by
  rw [trim, List.rdropWhile_eq_nil_iff]
  constructor
  · intro h c hc
    rw [← List.takeWhile_append_dropWhile (p := sep) (l := l), List.mem_append] at hc
    exact hc.elim List.mem_takeWhile_imp (h c)
  · exact fun h c hc => h c ((List.dropWhile_sublist _).subset hc)

/-- Only separators have no words. -/
theorem words_eq_nil_iff {l : List α} : words sep l = [] ↔ ∀ c ∈ l, sep c = true := by
  constructor
  · intro h
    induction l with
    | nil => exact fun _ h => nomatch h
    | cons c l ih =>
      by_cases hc : sep c = true
      · rw [words_cons hc] at h
        exact List.forall_mem_cons.mpr ⟨hc, ih h⟩
      · rw [words, List.splitOnP_cons_eq_if_modifyHead, if_neg hc] at h
        cases hsplit : l.splitOnP sep with
        | nil => exact absurd hsplit (List.splitOnP_ne_nil sep l)
        | cons w ws => simp [hsplit] at h
  · exact fun h => words_of_trim_eq_nil (trim_eq_nil_iff.mpr h)

/-- **Joining** with a separator keeps the words. -/
theorem words_intercalate (hc : sep c = true) (ls : List (List α)) :
    words sep ([c].intercalate ls) = ls.flatMap (words sep) := by
  induction ls with
  | nil => simp
  | cons l ls ih =>
    cases ls with
    | nil => simp
    | cons l' ls =>
      rw [List.intercalate_cons_cons, List.append_assoc, List.singleton_append,
        words_append_cons hc, ih]
      rfl

/-- So does splitting at one. -/
theorem flatMap_words_splitOn [DecidableEq α] (hc : sep c = true) (l : List α) :
    (l.splitOn c).flatMap (words sep) = words sep l := by
  rw [← words_intercalate hc, List.intercalate_splitOn]

end Words

import Mathlib.Data.List.Basic
import Mathlib.Data.List.Nodup

/-!
# Inserting rows, or ignoring them

A table that takes rows one after another, and ignores each that conflicts with one that is there:
`INSERT OR IGNORE` into a table with keys.

## Main results

* `forall_mem_insertOrIgnore_iff`: no row is ignored but for an equal one
* `forall_converted_iff`, `forall_clash_iff`, `forall_keyed_iff`: the same of rows that are
  converted first
-/

variable {α β : Type*} {conflict : α → α → Bool} {t rows : List α}

/-- The table after the rows were inserted, each ignored where it conflicts with one there. -/
def insertOrIgnore (conflict : α → α → Bool) : List α → List α → List α
  | t, [] => t
  | t, r :: rows => insertOrIgnore conflict (if t.any (conflict r) then t else t ++ [r]) rows

theorem mem_insertOrIgnore_of_mem {x : α} (h : x ∈ t) : x ∈ insertOrIgnore conflict t rows := by
  induction rows generalizing t with
  | nil => exact h
  | cons r rows ih =>
    refine ih ?_
    split_ifs
    · exact h
    · exact List.mem_append_left _ h

theorem insertOrIgnore_subset {x : α} (h : x ∈ insertOrIgnore conflict t rows) :
    x ∈ t ∨ x ∈ rows := by
  induction rows generalizing t with
  | nil => exact .inl h
  | cons r rows ih =>
    obtain hx | hx := ih h
    · split_ifs at hx
      · exact .inl hx
      · obtain hx | hx := List.mem_append.mp hx
        · exact .inl hx
        · exact .inr (List.mem_cons.mpr (.inl (List.mem_singleton.mp hx)))
    · exact .inr (List.mem_cons_of_mem r hx)

/-- Of a row that is ignored there is one that it conflicts with. -/
theorem exists_conflict {r : α} (hr : r ∈ rows) : r ∈ insertOrIgnore conflict t rows ∨
    ∃ x ∈ insertOrIgnore conflict t rows, conflict r x = true := by
  induction rows generalizing t with
  | nil => cases hr
  | cons y rows ih =>
    obtain rfl | hr := List.mem_cons.mp hr
    · by_cases hany : t.any (conflict r) = true
      · obtain ⟨x, hx, hconflict⟩ := List.any_eq_true.mp hany
        refine .inr ⟨x, ?_, hconflict⟩
        rw [insertOrIgnore, if_pos hany]
        exact mem_insertOrIgnore_of_mem hx
      · refine .inl ?_
        rw [insertOrIgnore, if_neg hany]
        exact mem_insertOrIgnore_of_mem (List.mem_append_right t (List.mem_singleton.mpr rfl))
    · exact ih hr

/-- Different rows of the table do not conflict. -/
theorem eq_of_conflict (hsymm : ∀ x y, conflict x y = conflict y x)
    (ht : ∀ x ∈ t, ∀ y ∈ t, conflict x y = true → x = y) :
    ∀ x ∈ insertOrIgnore conflict t rows, ∀ y ∈ insertOrIgnore conflict t rows,
      conflict x y = true → x = y := by
  induction rows generalizing t with
  | nil => exact ht
  | cons r rows ih =>
    refine ih ?_
    split_ifs with hany
    · exact ht
    · have hnone : ∀ x ∈ t, conflict r x ≠ true := fun x hx hr =>
        hany (List.any_eq_true.mpr ⟨x, hx, hr⟩)
      intro x hx y hy hxy
      obtain hx | hx := List.mem_append.mp hx <;> obtain hy | hy := List.mem_append.mp hy
      · exact ht x hx y hy hxy
      · rw [List.mem_singleton.mp hy, hsymm] at hxy
        exact absurd hxy (hnone x hx)
      · rw [List.mem_singleton.mp hx] at hxy
        exact absurd hxy (hnone y hy)
      · rw [List.mem_singleton.mp hx, List.mem_singleton.mp hy]

/-- **No row is missing** where those that conflict are equal. -/
theorem forall_mem_insertOrIgnore_iff (hsymm : ∀ x y, conflict x y = conflict y x) :
    (∀ r ∈ rows, r ∈ insertOrIgnore conflict [] rows) ↔
      ∀ x ∈ rows, ∀ y ∈ rows, conflict x y = true → x = y := by
  constructor
  · intro h x hx y hy hxy
    exact eq_of_conflict hsymm (by simp) x (h x hx) y (h y hy) hxy
  · intro h r hr
    obtain hmem | ⟨x, hx, hconflict⟩ : r ∈ insertOrIgnore conflict [] rows ∨
        ∃ x ∈ insertOrIgnore conflict [] rows, conflict r x = true := exists_conflict hr
    · exact hmem
    · obtain hx' | hx' := insertOrIgnore_subset hx
      · cases hx'
      · rw [h r hr x hx' hconflict]
        exact hx

/-- Rows that are converted first: each is there as it was converted, where all could be and those
that conflict then are equal. -/
theorem forall_converted_iff (hsymm : ∀ x y, conflict x y = conflict y x) {f : β → Option α}
    {l : List β} :
    (∀ b ∈ l, ∃ r ∈ insertOrIgnore conflict [] (l.filterMap f), f b = some r) ↔
      (∀ b ∈ l, (f b).isSome = true) ∧ ∀ b ∈ l, ∀ c ∈ l, ∀ x y, f b = some x → f c = some y →
        conflict x y = true → x = y := by
  constructor
  · intro h
    refine ⟨fun b hb => ?_, fun b hb c hc x y hx hy hxy => ?_⟩
    · obtain ⟨r, -, hr⟩ := h b hb
      rw [hr]
      rfl
    · obtain ⟨x', hx', hfx⟩ := h b hb
      obtain ⟨y', hy', hfy⟩ := h c hc
      obtain rfl := Option.some.inj (hx.symm.trans hfx)
      obtain rfl := Option.some.inj (hy.symm.trans hfy)
      exact eq_of_conflict hsymm (by simp) x hx' y hy' hxy
  · rintro ⟨hsome, hequal⟩ b hb
    obtain ⟨r, hr⟩ := Option.isSome_iff_exists.mp (hsome b hb)
    refine ⟨r, (forall_mem_insertOrIgnore_iff hsymm).mpr ?_ r (List.mem_filterMap.mpr ⟨b, hb, hr⟩),
      hr⟩
    intro x hx y hy hxy
    obtain ⟨b, hb, hx⟩ := List.mem_filterMap.mp hx
    obtain ⟨c, hc, hy⟩ := List.mem_filterMap.mp hy
    exact hequal b hb c hc x y hx hy hxy

/-- The same where what conflicts, and what is converted alike, is told from the rows before. -/
theorem forall_clash_iff (hsymm : ∀ x y, conflict x y = conflict y x) {f : β → Option α}
    {l : List β} {clash : β → β → Prop} (same : β → β → Prop)
    (hclash : ∀ b c x y, f b = some x → f c = some y → (conflict x y = true ↔ clash b c))
    (hsame : ∀ b c x y, f b = some x → f c = some y → (x = y ↔ same b c)) :
    (∀ b ∈ l, ∃ r ∈ insertOrIgnore conflict [] (l.filterMap f), f b = some r) ↔
      (∀ b ∈ l, (f b).isSome = true) ∧ ∀ b ∈ l, ∀ c ∈ l, clash b c → same b c := by
  rw [forall_converted_iff hsymm]
  refine and_congr_right fun hsome =>
    ⟨fun h b hb c hc hbc => ?_, fun h b hb c hc x y hx hy hxy => ?_⟩
  · obtain ⟨x, hx⟩ := Option.isSome_iff_exists.mp (hsome b hb)
    obtain ⟨y, hy⟩ := Option.isSome_iff_exists.mp (hsome c hc)
    exact (hsame b c x y hx hy).mp (h b hb c hc x y hx hy ((hclash b c x y hx hy).mpr hbc))
  · exact (hsame b c x y hx hy).mpr (h b hb c hc ((hclash b c x y hx hy).mp hxy))

/-- The same where only rows of one key conflict, of which there are no two. -/
theorem forall_keyed_iff {κ : Type*} (hsymm : ∀ x y, conflict x y = conflict y x)
    {f : β → Option α} {l : List β} {key : β → κ} (hkeys : (l.map key).Nodup)
    (hconflict : ∀ b c x y, f b = some x → f c = some y → conflict x y = true → key b = key c) :
    (∀ b ∈ l, ∃ r ∈ insertOrIgnore conflict [] (l.filterMap f), f b = some r) ↔
      ∀ b ∈ l, (f b).isSome = true := by
  rw [forall_converted_iff hsymm, and_iff_left]
  intro b hb c hc x y hx hy hxy
  obtain rfl := List.inj_on_of_nodup_map hkeys hb hc (hconflict b c x y hx hy hxy)
  exact Option.some.inj (hx.symm.trans hy)

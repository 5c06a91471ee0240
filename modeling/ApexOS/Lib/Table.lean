import Mathlib.Data.List.Find
import Mathlib.Data.List.Nodup
import Mathlib.Data.List.Lookmap

/-!
# Tables: finite maps in the order of insertion

What a program keeps in a hash map, as the list of its entries with distinct keys. The distinctness
is a field, so every entry of a table is what a lookup of its key finds, and a statement about "the
entries" is a statement about lookups. Iteration goes in the order of insertion; nothing proved
about a table depends on it.

Each operation has one lookup lemma; proofs about tables go through those.

## Main definitions

* `Table`: the entries, with distinct keys
* `Table.get?`, `insert`, `modify`, `erase`, `eraseAll`: by key
* `Table.find?`, `keysWhere`, `count`: by a test on key and value
* `Table.mapValues`, `filter`: every entry at once

## Main results

* `Table.mem_iff_get?`: an entry is what a lookup of its key finds
* `Table.get?_insert`, `get?_modify`, `get?_erase`: lookups after an update
* `Table.eraseAll_of_append`: erasing what was added under fresh keys restores the table
* `Table.get?_insertAll_of_perm`: a table read back from a listing of its entries
-/

/-- A finite map, as the list of its entries. -/
structure Table (κ α : Type*) where
  entries : List (κ × α)
  nodup : (entries.map Prod.fst).Nodup

namespace Table

variable {κ α β : Type*}

theorem ext_entries {s t : Table κ α} (h : s.entries = t.entries) : s = t := by
  cases s
  cases t
  subst h
  rfl

instance [DecidableEq κ] [DecidableEq α] : DecidableEq (Table κ α) := fun s t =>
  decidable_of_iff (s.entries = t.entries) ⟨ext_entries, congrArg entries⟩

/-- No entries. -/
def empty : Table κ α := ⟨[], List.nodup_nil⟩

/-- The keys, in the order of insertion. -/
def keys (t : Table κ α) : List κ := t.entries.map Prod.fst

/-- The values, in the order of insertion. -/
def values (t : Table κ α) : List α := t.entries.map Prod.snd

/-- The first entry that passes a test. -/
def find? (t : Table κ α) (p : κ → α → Bool) : Option (κ × α) := t.entries.find? fun x => p x.1 x.2

/-- The keys of the entries that pass a test. -/
def keysWhere (t : Table κ α) (p : κ → α → Bool) : List κ :=
  (t.entries.filter fun x => p x.1 x.2).map Prod.fst

/-- How many values pass a test. -/
def count (t : Table κ α) (p : α → Bool) : ℕ := t.entries.countP fun x => p x.2

theorem key_inj {t : Table κ α} {x y : κ × α} (hx : x ∈ t.entries) (hy : y ∈ t.entries)
    (h : x.1 = y.1) : x = y :=
  List.inj_on_of_nodup_map t.nodup hx hy h

theorem nodup_keysWhere (t : Table κ α) (p : κ → α → Bool) : (t.keysWhere p).Nodup :=
  t.nodup.sublist (List.filter_sublist.map Prod.fst)

/-- Every value is changed, in its place. -/
def mapValues (t : Table κ α) (f : κ → α → α) : Table κ α where
  entries := t.entries.map fun x => (x.1, f x.1 x.2)
  nodup := by
    rw [List.map_map]
    exact t.nodup

/-- The entries that pass a test. -/
def filter (t : Table κ α) (p : κ → α → Bool) : Table κ α where
  entries := t.entries.filter fun x => p x.1 x.2
  nodup := t.nodup.sublist (List.filter_sublist.map Prod.fst)

variable [DecidableEq κ]

/-- The value under a key. -/
def get? (t : Table κ α) (k : κ) : Option α := (t.entries.find? fun x => x.1 = k).map Prod.snd

/-- The key has a value. -/
def contains (t : Table κ α) (k : κ) : Bool := (t.get? k).isSome

/-- The entry under a key is dropped. -/
def erase (t : Table κ α) (k : κ) : Table κ α where
  entries := t.entries.filter fun x => x.1 ≠ k
  nodup := t.nodup.sublist (List.filter_sublist.map Prod.fst)

/-- The entries under these keys are dropped. -/
def eraseAll (t : Table κ α) (ks : List κ) : Table κ α := ks.foldl erase t

theorem not_mem_map_filter (l : List (κ × α)) (k : κ) :
    k ∉ (l.filter fun x => x.1 ≠ k).map Prod.fst := by
  simp

/-- The value under a key is set; the entry goes to the end. -/
def insert (t : Table κ α) (k : κ) (v : α) : Table κ α where
  entries := t.entries.filter (fun x => x.1 ≠ k) ++ [(k, v)]
  nodup := by
    rw [List.map_append, List.map_singleton]
    refine List.Nodup.append (t.erase k).nodup (List.nodup_singleton k) ?_
    rw [List.disjoint_singleton]
    exact not_mem_map_filter t.entries k

/-- The value under a key is changed, in its place. -/
def modify (t : Table κ α) (k : κ) (f : α → α) : Table κ α where
  entries := t.entries.map fun x => if x.1 = k then (x.1, f x.2) else x
  nodup := by
    have hkeys : (t.entries.map fun x => if x.1 = k then (x.1, f x.2) else x).map Prod.fst =
        t.entries.map Prod.fst := by
      rw [List.map_map]
      refine List.map_congr_left fun x _ => ?_
      by_cases h : x.1 = k <;> simp [h]
    rw [hkeys]
    exact t.nodup

/-! ### Lookups -/

variable {t : Table κ α} {k k' : κ} {v : α}

theorem mem_of_get? (h : t.get? k = some v) : (k, v) ∈ t.entries := by
  obtain ⟨x, hx, rfl⟩ := Option.map_eq_some_iff.mp h
  have hk : x.1 = k := by simpa using List.find?_some hx
  rw [← hk]
  exact List.mem_of_find?_eq_some hx

/-- **An entry is what a lookup of its key finds.** -/
theorem mem_iff_get? : (k, v) ∈ t.entries ↔ t.get? k = some v := by
  refine ⟨fun h => ?_, mem_of_get?⟩
  obtain ⟨x, hx⟩ : ∃ x, t.entries.find? (fun x => x.1 = k) = some x := by
    rw [← Option.isSome_iff_exists, List.find?_isSome]
    exact ⟨(k, v), h, by simp⟩
  have hk : x.1 = k := by simpa using List.find?_some hx
  obtain rfl := key_inj h (List.mem_of_find?_eq_some hx) hk.symm
  rw [get?, hx, Option.map_some]

theorem get?_eq_none_iff : t.get? k = none ↔ k ∉ t.keys := by
  constructor
  · rintro h hk
    obtain ⟨⟨k', v⟩, hx, rfl⟩ := List.mem_map.mp hk
    rw [mem_iff_get?.mp hx] at h
    cases h
  · intro h
    cases hv : t.get? k with
    | none => rfl
    | some v => exact absurd (List.mem_map_of_mem (mem_of_get? hv)) h

theorem get?_eq_none_of_forall (h : ∀ x ∈ t.entries, x.1 ≠ k) : t.get? k = none := by
  refine get?_eq_none_iff.mpr fun hk => ?_
  obtain ⟨x, hx, hxk⟩ := List.mem_map.mp hk
  exact h x hx hxk

theorem contains_iff : t.contains k = true ↔ ∃ v, t.get? k = some v := Option.isSome_iff_exists

@[simp] theorem get?_empty : (empty : Table κ α).get? k = none := rfl

/-- Two tables that hold the same entries answer alike. -/
theorem get?_congr {s : Table κ α} (h : ∀ v, (k, v) ∈ s.entries ↔ (k', v) ∈ t.entries) :
    s.get? k = t.get? k' := by
  refine Option.ext fun v => ?_
  rw [← mem_iff_get?, ← mem_iff_get?]
  exact h v

theorem get?_erase : (t.erase k).get? k' = if k' = k then none else t.get? k' := by
  split
  · rename_i h
    rw [h, get?_eq_none_iff]
    exact not_mem_map_filter t.entries k
  · rename_i h
    exact get?_congr fun v => by simp [erase, h]

theorem get?_insert : (t.insert k v).get? k' = if k' = k then some v else t.get? k' := by
  split
  · rename_i h
    rw [h, ← mem_iff_get?]
    simp [insert]
  · rename_i h
    exact get?_congr fun u => by simp [insert, h]

theorem mem_values_insert {x : α} (h : x ∈ (t.insert k v).values) : x = v ∨ x ∈ t.values := by
  simp only [values, insert, List.map_append, List.map_singleton, List.mem_append,
    List.mem_singleton] at h
  exact h.symm.imp_right fun hx => (List.filter_sublist.map Prod.snd).subset hx

theorem get?_modify {f : α → α} :
    (t.modify k f).get? k' = if k' = k then (t.get? k').map f else t.get? k' := by
  refine Option.ext fun v => ?_
  rw [← mem_iff_get?, modify, List.mem_map]
  constructor
  · rintro ⟨⟨a, u⟩, hx, he⟩
    have hget := mem_iff_get?.mp hx
    by_cases ha : a = k
    · obtain ⟨rfl, rfl⟩ : a = k' ∧ f u = v := by simpa [ha] using he
      rw [if_pos ha, hget]
      rfl
    · obtain ⟨rfl, rfl⟩ : a = k' ∧ u = v := by simpa [ha] using he
      rw [if_neg ha, hget]
  · intro h
    by_cases hk : k' = k
    · rw [if_pos hk] at h
      obtain ⟨u, hu, rfl⟩ := Option.map_eq_some_iff.mp h
      exact ⟨(k', u), mem_of_get? hu, by simp [hk]⟩
    · rw [if_neg hk] at h
      exact ⟨(k', v), mem_of_get? h, by simp [hk]⟩

@[simp] theorem get?_modify_self {f : α → α} :
    (t.modify k f).get? k = (t.get? k).map f := by
  rw [get?_modify, if_pos rfl]

theorem get?_modify_of_ne {f : α → α} (h : k' ≠ k) : (t.modify k f).get? k' = t.get? k' := by
  rw [get?_modify, if_neg h]

/-! ### Tests -/

theorem get?_mapValues {f : κ → α → α} : (t.mapValues f).get? k = (t.get? k).map (f k) := by
  refine Option.ext fun v => ?_
  rw [← mem_iff_get?, Option.map_eq_some_iff]
  constructor
  · intro h
    obtain ⟨⟨k', v'⟩, hx, heq⟩ := List.mem_map.mp h
    cases heq
    exact ⟨v', mem_iff_get?.mp hx, rfl⟩
  · rintro ⟨v', hget, rfl⟩
    exact List.mem_map.mpr ⟨(k, v'), mem_of_get? hget, rfl⟩

theorem get?_filter {p : κ → α → Bool} : (t.filter p).get? k = (t.get? k).filter (p k) := by
  refine Option.ext fun v => ?_
  rw [← mem_iff_get?, Option.filter_eq_some_iff, ← mem_iff_get?]
  exact List.mem_filter

theorem find?_eq_some {p : κ → α → Bool} (h : t.find? p = some (k, v)) :
    t.get? k = some v ∧ p k v = true := by
  refine ⟨mem_iff_get?.mp (List.mem_of_find?_eq_some h), ?_⟩
  simpa using List.find?_some h

/-- A search finds the same entry after a change of one value that the test does not see. -/
theorem find?_modify_const {p : κ → α → Bool} {v' : α}
    (h : ∀ v, t.get? k = some v → p k v' = p k v) :
    (t.modify k fun _ => v').find? p =
      (t.find? p).map fun x => if x.1 = k then (x.1, v') else x := by
  change (t.entries.map _).find? _ = (t.entries.find? _).map _
  rw [List.find?_map]
  refine congrArg (Option.map _) (List.find?_congr fun x hx => ?_)
  by_cases hk : x.1 = k
  · obtain ⟨k', v⟩ := x
    subst hk
    simpa using h v (mem_iff_get?.mp hx)
  · simp [hk]

theorem mem_keysWhere {p : κ → α → Bool} :
    k ∈ t.keysWhere p ↔ ∃ v, t.get? k = some v ∧ p k v = true := by
  simp only [keysWhere, List.mem_map, List.mem_filter]
  constructor
  · rintro ⟨⟨a, v⟩, ⟨hx, hp⟩, rfl⟩
    exact ⟨v, mem_iff_get?.mp hx, hp⟩
  · rintro ⟨v, hv, hp⟩
    exact ⟨(k, v), ⟨mem_of_get? hv, hp⟩, rfl⟩

theorem modify_modify {f g : α → α} : (t.modify k f).modify k g = t.modify k (g ∘ f) := by
  refine ext_entries ?_
  change (t.entries.map _).map _ = t.entries.map _
  rw [List.map_map]
  refine List.map_congr_left fun x _ => ?_
  by_cases h : x.1 = k <;> simp [h]

/-- There is nothing to change under a key that is not there. -/
theorem modify_of_none {f : α → α} (h : t.get? k = none) : t.modify k f = t := by
  refine ext_entries ((List.map_congr_left fun x hx => if_neg fun hk => ?_).trans (List.map_id _))
  exact get?_eq_none_iff.mp h (hk ▸ List.mem_map_of_mem hx)

/-- A change of what is there is its replacement. -/
theorem modify_eq_of_get? {f : α → α} (h : t.get? k = some v) :
    t.modify k f = t.modify k fun _ => f v := by
  refine ext_entries (List.map_congr_left fun x hx => ?_)
  by_cases hk : x.1 = k
  · have hv : x.2 = v := Option.some.inj ((mem_iff_get?.mp hx).symm.trans (hk ▸ h))
    simp [hk, hv]
  · simp [hk]

/-- Changing one entry adds at most one to a count. -/
theorem count_modify_le (t : Table κ α) (k : κ) (f : α → α) (p : α → Bool) :
    (t.modify k f).count p ≤ t.count p + 1 := by
  have hcount : ∀ l : List (κ × α), (l.map Prod.fst).Nodup →
      (l.map fun x => if x.1 = k then (x.1, f x.2) else x).countP (fun x => p x.2) ≤
        l.countP (fun x => p x.2) + 1 := by
    intro l hl
    induction l with
    | nil => simp
    | cons x l ih =>
      obtain ⟨hx, hl⟩ := List.nodup_cons.mp hl
      by_cases hk : x.1 = k
      · have hrest : l.map (fun x => if x.1 = k then (x.1, f x.2) else x) = l := by
          refine (List.map_congr_left fun y hy => if_neg fun hyk => hx ?_).trans (List.map_id l)
          exact hk ▸ hyk ▸ List.mem_map_of_mem hy
        rw [List.map_cons, hrest, List.countP_cons, List.countP_cons]
        split <;> split <;> omega
      · rw [List.map_cons, if_neg hk, List.countP_cons, List.countP_cons]
        have := ih hl
        omega
  exact hcount t.entries t.nodup

/-- A change that lets nothing new pass a test adds nothing to a count. -/
theorem count_modify_le_of_imp {f : α → α} {p : α → Bool}
    (h : ∀ v, t.get? k = some v → p (f v) = true → p v = true) :
    (t.modify k f).count p ≤ t.count p := by
  rw [count, count, modify, List.countP_map]
  refine List.countP_mono_left fun x hx hpx => ?_
  by_cases hk : x.1 = k
  · refine h x.2 (hk ▸ mem_iff_get?.mp hx) ?_
    simpa [hk] using hpx
  · simpa [hk] using hpx

/-! ### Fresh keys -/

theorem entries_insert_of_fresh (h : t.get? k = none) :
    (t.insert k v).entries = t.entries ++ [(k, v)] := by
  rw [get?_eq_none_iff] at h
  have hkept : t.entries.filter (fun x => x.1 ≠ k) = t.entries := by
    refine List.filter_eq_self.mpr fun x hx => ?_
    have : x.1 ≠ k := fun hk => h (hk ▸ List.mem_map_of_mem hx)
    simpa using this
  change t.entries.filter (fun x => x.1 ≠ k) ++ [(k, v)] = t.entries ++ [(k, v)]
  rw [hkept]

/-- Erasing what was inserted under a fresh key restores the table. -/
theorem erase_insert_of_fresh (h : t.get? k = none) : (t.insert k v).erase k = t := by
  refine ext_entries ?_
  change (t.insert k v).entries.filter (fun x => x.1 ≠ k) = t.entries
  rw [entries_insert_of_fresh h, List.filter_append, List.filter_eq_self.mpr]
  · simp
  · intro x hx
    have : x.1 ≠ k := fun hk => get?_eq_none_iff.mp h (hk ▸ List.mem_map_of_mem hx)
    simpa using this

theorem entries_eraseAll (ks : List κ) :
    (t.eraseAll ks).entries = t.entries.filter fun x => x.1 ∉ ks := by
  induction ks generalizing t with
  | nil => simp [eraseAll]
  | cons a ks ih =>
    rw [eraseAll, List.foldl_cons]
    refine ih.trans ?_
    rw [erase, List.filter_filter]
    refine List.filter_congr fun x _ => ?_
    by_cases ha : x.1 = a <;> simp [ha]

/-- **Erasing what was added under fresh keys restores the table.** -/
theorem eraseAll_of_append {s : Table κ α} {added : List (κ × α)} {ks : List κ}
    (hs : s.entries = t.entries ++ added) (hadded : ∀ x ∈ added, x.1 ∈ ks)
    (hfresh : ∀ k ∈ ks, t.get? k = none) : s.eraseAll ks = t := by
  refine ext_entries ?_
  rw [entries_eraseAll, hs, List.filter_append, List.filter_eq_self.mpr, List.filter_eq_nil_iff.mpr,
    List.append_nil]
  · intro x hx
    simpa using hadded x hx
  · intro x hx
    have : x.1 ∉ ks := fun hk => get?_eq_none_iff.mp (hfresh _ hk) (List.mem_map_of_mem hx)
    simpa using this

/-! ### Loading -/

/-- Entries are inserted, one after the other. -/
def insertAll (t : Table κ α) (l : List (κ × α)) : Table κ α :=
  l.foldl (fun t x => t.insert x.1 x.2) t

theorem mem_of_get?_insertAll {l : List (κ × α)} (h : (t.insertAll l).get? k = some v) :
    (k, v) ∈ l ∨ t.get? k = some v := by
  induction l generalizing t with
  | nil => exact Or.inr h
  | cons x l ih =>
    rcases ih h with h | h
    · exact Or.inl (List.mem_cons_of_mem _ h)
    · rw [get?_insert] at h
      split at h
      · rename_i hk
        obtain rfl := Option.some.inj h
        exact Or.inl (hk ▸ List.mem_cons_self)
      · exact Or.inr h

/-- What is inserted is there. -/
theorem contains_insertAll {l : List (κ × α)} (h : k ∈ l.map Prod.fst ∨ t.contains k = true) :
    (t.insertAll l).contains k = true := by
  induction l generalizing t with
  | nil => exact h.resolve_left (by simp)
  | cons x l ih =>
    refine ih ?_
    by_cases hk : k ∈ l.map Prod.fst
    · exact Or.inl hk
    · refine Or.inr (contains_iff.mpr ?_)
      rw [get?_insert]
      split
      · exact ⟨_, rfl⟩
      · rename_i hne
        refine contains_iff.mp (h.resolve_left fun hmem => ?_)
        exact (List.mem_cons.mp hmem).elim hne hk

theorem get?_insertAll_of_not_mem {l : List (κ × α)} (h : k ∉ l.map Prod.fst) :
    (t.insertAll l).get? k = t.get? k := by
  induction l generalizing t with
  | nil => rfl
  | cons x l ih =>
    obtain ⟨hx, hl⟩ : k ≠ x.1 ∧ k ∉ l.map Prod.fst := by simpa using h
    refine (ih hl).trans ?_
    rw [get?_insert, if_neg hx]

theorem get?_insertAll_of_mem {l : List (κ × α)} (hl : (l.map Prod.fst).Nodup) (h : (k, v) ∈ l) :
    (t.insertAll l).get? k = some v := by
  induction l generalizing t with
  | nil => simp at h
  | cons x l ih =>
    obtain ⟨hx, hl⟩ := List.nodup_cons.mp hl
    rcases List.mem_cons.mp h with rfl | h
    · refine (get?_insertAll_of_not_mem hx).trans ?_
      rw [get?_insert, if_pos rfl]
    · exact ih hl h

/-- Reading part of each value is reading the values and taking the parts. -/
theorem get?_insertAll_map {γ : Type*} (l : List γ) (key : γ → κ) (val : γ → α)
    (f : α → β) (k : κ) :
    (empty.insertAll (l.map fun c => (key c, f (val c)))).get? k =
      ((empty.insertAll (l.map fun c => (key c, val c))).get? k).map f := by
  suffices h : ∀ (s : Table κ β) (t : Table κ α), (∀ k, s.get? k = (t.get? k).map f) → ∀ k,
      (s.insertAll (l.map fun c => (key c, f (val c)))).get? k =
        ((t.insertAll (l.map fun c => (key c, val c))).get? k).map f from
    h _ _ (fun _ => rfl) k
  induction l with
  | nil => exact fun s t h => h
  | cons c l ih =>
    intro s t h
    refine ih _ _ fun k' => ?_
    rw [get?_insert, get?_insert, h k']
    split <;> rfl

/-- **A table read back from a listing of its entries**, in whatever order they were listed. -/
theorem get?_insertAll_of_perm {γ : Type*} {s : Table κ β} {l : List γ} {f : κ → β → γ}
    {key : γ → κ} {val : γ → α} (hl : l.Perm (s.entries.map fun x => f x.1 x.2))
    (hkey : ∀ k b, key (f k b) = k) :
    (empty.insertAll (l.map fun c => (key c, val c))).get? k =
      (s.get? k).map fun b => val (f k b) := by
  have hkeys : ((l.map fun c => (key c, val c)).map Prod.fst).Perm s.keys := by
    refine (List.Perm.trans ?_ ((hl.map key).trans ?_))
    · rw [List.map_map]
      exact .refl _
    · rw [List.map_map]
      exact .of_eq (List.map_congr_left fun x _ => hkey x.1 x.2)
  cases hs : s.get? k with
  | none =>
    refine get?_insertAll_of_not_mem fun hk => ?_
    exact get?_eq_none_iff.mp hs (hkeys.mem_iff.mp hk)
  | some b =>
    refine get?_insertAll_of_mem (hkeys.nodup_iff.mpr s.nodup) ?_
    refine List.mem_map.mpr ⟨f k b, hl.mem_iff.mpr ?_, by rw [hkey]⟩
    exact List.mem_map.mpr ⟨(k, b), mem_of_get? hs, rfl⟩

end Table

import Mathlib.Data.List.Basic
import Mathlib.Data.List.Perm.Basic
import Mathlib.Data.List.Nodup
import Mathlib.Data.List.ReduceOption

/-!
# Fixed arrays of optional entries

`Slots α n` is an array of `n` cells, each vacant or holding one entry: the usual allocation-free
table of embedded code. It is searched from the front, an entry goes into the first vacant cell,
and removing one leaves a hole.

Statements about such a table are statements about `entries`, the held values in cell order; the
cells themselves matter only for where the next entry lands. `Compact` is the one layout fact
worth naming: a table that never had a hole keeps its entries in the order they arrived.

## Main definitions

* `Slots`, `Slots.entries`: the table, and what it holds
* `Slots.fill`: put an entry in the first vacant cell
* `Slots.updateFirst`: change or drop the first entry that satisfies a test
* `Slots.Compact`: no vacant cell before an occupied one

## Main results

* `Slots.fill_eq_none_iff`: filling fails exactly on a full table
* `Slots.perm_entries_fill`, `Slots.entries_fill_of_compact`: what filling adds
* `Slots.entries_updateFirst`: what updating changes
* `Slots.lookup_eq_some_iff`, `Slots.mem_entries_updateKey`: a table without repeated keys is a
  finite map
-/

/-- An array of `n` cells, each vacant or holding an entry. -/
structure Slots (α : Type*) (n : ℕ) where
  /-- The cells, front to back. -/
  cells : List (Option α)
  /-- There are always exactly `n` of them. -/
  length_cells : cells.length = n
  deriving DecidableEq

namespace Slots

variable {α : Type*} {n : ℕ}

/-! ### Cells -/

/-- Put `a` in the first vacant cell of a list of cells. -/
def fillCells (a : α) : List (Option α) → List (Option α)
  | [] => []
  | none :: cs => some a :: cs
  | some b :: cs => some b :: fillCells a cs

/-- Apply `f` to the first entry that satisfies `p`; `none` empties the cell. -/
def updateCells (p : α → Bool) (f : α → Option α) : List (Option α) → List (Option α)
  | [] => []
  | none :: cs => none :: updateCells p f cs
  | some b :: cs => if p b then f b :: cs else some b :: updateCells p f cs

@[simp] theorem length_fillCells (a : α) (cs : List (Option α)) :
    (fillCells a cs).length = cs.length := by
  induction cs with
  | nil => rfl
  | cons c cs ih => cases c <;> simp [fillCells, ih]

@[simp] theorem length_updateCells (p : α → Bool) (f : α → Option α) (cs : List (Option α)) :
    (updateCells p f cs).length = cs.length := by
  induction cs with
  | nil => rfl
  | cons c cs ih =>
    cases c with
    | none => simp [updateCells, ih]
    | some b => by_cases hb : p b <;> simp [updateCells, hb, ih]

/-! ### The table -/

/-- The table with every cell vacant. -/
def empty (α : Type*) (n : ℕ) : Slots α n := ⟨List.replicate n none, by simp⟩

/-- What the table holds, front to back. -/
def entries (t : Slots α n) : List α := t.cells.reduceOption

/-- Put `a` in the first vacant cell; `none` when there is none. -/
def fill (t : Slots α n) (a : α) : Option (Slots α n) :=
  if t.cells.any Option.isNone then
    some ⟨fillCells a t.cells, by simp [t.length_cells]⟩
  else none

/-- Apply `f` to the first entry that satisfies `p`, emptying its cell on `none`. -/
def updateFirst (t : Slots α n) (p : α → Bool) (f : α → Option α) : Slots α n :=
  ⟨updateCells p f t.cells, by simp [t.length_cells]⟩

@[simp] theorem entries_empty : (empty α n).entries = [] := by
  simp [entries, empty, List.reduceOption_replicate_none]

theorem length_entries_le (t : Slots α n) : t.entries.length ≤ n := by
  have h := List.reduceOption_length_le t.cells
  rwa [t.length_cells] at h

private theorem any_isNone_iff (cs : List (Option α)) :
    cs.any Option.isNone = true ↔ cs.reduceOption.length < cs.length := by
  induction cs with
  | nil => simp
  | cons c cs ih =>
    cases c with
    | none =>
      have := List.reduceOption_length_le cs
      simp only [List.any_cons, Option.isNone_none, Bool.true_or, true_iff,
        List.reduceOption_cons_of_none, List.length_cons]
      omega
    | some b =>
      simp only [List.any_cons, Option.isNone_some, Bool.false_or, ih,
        List.reduceOption_cons_of_some, List.length_cons]
      omega

/-- Filling fails exactly when all `n` cells are occupied. -/
theorem fill_eq_none_iff {t : Slots α n} {a : α} : t.fill a = none ↔ t.entries.length = n := by
  have hle := t.length_entries_le
  have hany := any_isNone_iff t.cells
  rw [t.length_cells] at hany
  unfold fill
  split
  · rename_i h
    have hlt : t.entries.length < n := hany.mp h
    exact ⟨fun h => by simp at h, fun h => by omega⟩
  · rename_i h
    have hge : ¬ t.entries.length < n := fun hlt => h (hany.mpr hlt)
    exact ⟨fun _ => by omega, fun _ => rfl⟩

private theorem perm_reduceOption_fillCells (a : α) (cs : List (Option α))
    (h : cs.any Option.isNone = true) :
    ((fillCells a cs).reduceOption).Perm (a :: cs.reduceOption) := by
  induction cs with
  | nil => simp at h
  | cons c cs ih =>
    cases c with
    | none => simp [fillCells]
    | some b =>
      have hcs : cs.any Option.isNone = true := by simpa using h
      calc ((fillCells a (some b :: cs)).reduceOption)
          = b :: (fillCells a cs).reduceOption := by simp [fillCells]
        _ |>.Perm (b :: a :: cs.reduceOption) := (ih hcs).cons b
        _ |>.Perm (a :: b :: cs.reduceOption) := List.Perm.swap a b _

/-- Filling adds the new entry and keeps every old one. -/
theorem perm_entries_fill {t t' : Slots α n} {a : α} (h : t.fill a = some t') :
    t'.entries.Perm (a :: t.entries) := by
  unfold fill at h
  split at h
  · rename_i hany
    obtain rfl := Option.some.inj h
    exact perm_reduceOption_fillCells a t.cells hany
  · cases h

theorem mem_entries_fill {t t' : Slots α n} {a b : α} (h : t.fill a = some t') :
    b ∈ t'.entries ↔ b = a ∨ b ∈ t.entries := by
  rw [(perm_entries_fill h).mem_iff, List.mem_cons]

/-! ### Updating one entry -/

private theorem updateCells_eq_self {p : α → Bool} {f : α → Option α} {cs : List (Option α)}
    (h : ∀ b, cs.reduceOption.find? p = some b → f b = some b) : updateCells p f cs = cs := by
  induction cs with
  | nil => rfl
  | cons c cs ih =>
    cases c with
    | none => simp [updateCells, ih (by simpa using h)]
    | some d =>
      by_cases hd : p d = true
      · simp [updateCells, hd, h d (by simp [hd])]
      · have hcs := ih fun b hb => h b (by simpa [hd] using hb)
        simp [updateCells, hd, hcs]

/-- Updating changes nothing when nothing satisfies the test, or what first does is mapped to
itself. -/
theorem updateFirst_eq_self {t : Slots α n} {p : α → Bool} {f : α → Option α}
    (h : ∀ b, t.entries.find? p = some b → f b = some b) : t.updateFirst p f = t := by
  have hcells := updateCells_eq_self h
  cases t
  simp only [updateFirst] at hcells ⊢
  simp only [hcells]

private theorem reduceOption_updateCells {p : α → Bool} {f : α → Option α}
    {cs : List (Option α)} {b : α} (h : cs.reduceOption.find? p = some b) :
    ∃ l₁ l₂, cs.reduceOption = l₁ ++ b :: l₂ ∧ (∀ a ∈ l₁, p a = false) ∧
      (updateCells p f cs).reduceOption = l₁ ++ (f b).toList ++ l₂ := by
  induction cs with
  | nil => simp at h
  | cons c cs ih =>
    cases c with
    | none => simpa [updateCells] using ih (by simpa using h)
    | some d =>
      by_cases hd : p d = true
      · obtain rfl : d = b := by simpa [hd] using h
        refine ⟨[], cs.reduceOption, by simp, by simp, ?_⟩
        cases hf : f d <;> simp [updateCells, hd, hf]
      · obtain ⟨l₁, l₂, hcs, hl₁, hup⟩ := ih (by simpa [hd] using h)
        refine ⟨d :: l₁, l₂, by simp [hcs], ?_, by simp [updateCells, hd, hup]⟩
        simpa [hd] using hl₁

/-- Updating replaces the first entry that satisfies the test, in place. -/
theorem entries_updateFirst {t : Slots α n} {p : α → Bool} {f : α → Option α} {b : α}
    (h : t.entries.find? p = some b) :
    ∃ l₁ l₂, t.entries = l₁ ++ b :: l₂ ∧ (∀ a ∈ l₁, p a = false) ∧
      (t.updateFirst p f).entries = l₁ ++ (f b).toList ++ l₂ :=
  reduceOption_updateCells h

/-! ### Tables as finite maps

Entries carry a key, and the code above the table keeps keys distinct. -/

section Keyed

variable {κ : Type*} [DecidableEq κ] (key : α → κ)

/-- No two entries share a key. -/
def KeysNodup (t : Slots α n) : Prop := (t.entries.map key).Nodup

/-- The first entry with key `k`. -/
def lookup (t : Slots α n) (k : κ) : Option α := t.entries.find? fun a => key a == k

/-- Apply `f` to the entry with key `k`, dropping it on `none`. -/
def updateKey (t : Slots α n) (k : κ) (f : α → Option α) : Slots α n :=
  t.updateFirst (fun a => key a == k) f

variable {key} {t t' : Slots α n} {a b : α} {k : κ}

omit [DecidableEq κ] in
theorem keysNodup_empty : KeysNodup key (empty α n) := by simp [KeysNodup]

theorem lookup_eq_none_iff : t.lookup key k = none ↔ ∀ a ∈ t.entries, key a ≠ k := by
  simp [lookup, List.find?_eq_none]

theorem lookup_eq_some_iff (h : KeysNodup key t) :
    t.lookup key k = some a ↔ a ∈ t.entries ∧ key a = k := by
  constructor
  · intro hfind
    exact ⟨List.mem_of_find?_eq_some hfind, by simpa using List.find?_some hfind⟩
  · rintro ⟨ha, rfl⟩
    cases hfind : t.lookup key (key a) with
    | none => exact absurd rfl (lookup_eq_none_iff.mp hfind a ha)
    | some b =>
      have hb : b ∈ t.entries := List.mem_of_find?_eq_some hfind
      have hkey : key b = key a := by simpa using List.find?_some hfind
      rw [List.inj_on_of_nodup_map h hb ha hkey]

theorem KeysNodup.fill (h : KeysNodup key t) (hk : t.lookup key (key a) = none)
    (hf : t.fill a = some t') : KeysNodup key t' := by
  rw [KeysNodup, ((perm_entries_fill hf).map key).nodup_iff, List.map_cons, List.nodup_cons]
  refine ⟨fun hmem => ?_, h⟩
  obtain ⟨b, hb, hkey⟩ := List.mem_map.mp hmem
  exact lookup_eq_none_iff.mp hk b hb hkey

/-- Updating at `k` changes nothing when the entry there, if any, is mapped to itself. -/
theorem updateKey_eq_self {f : α → Option α} (h : ∀ b, t.lookup key k = some b → f b = some b) :
    t.updateKey key k f = t :=
  updateFirst_eq_self h

theorem updateKey_of_lookup_eq_none {f : α → Option α} (h : t.lookup key k = none) :
    t.updateKey key k f = t :=
  updateKey_eq_self fun b hb => by rw [h] at hb; cases hb

/-- What is found after an update that keeps the key. -/
theorem lookup_updateKey {f : α → Option α} (h : t.lookup key k = some a) (hf : f a = some b)
    (hb : key b = k) : (t.updateKey key k f).lookup key k = some b := by
  obtain ⟨l₁, l₂, -, hl₁, hnew⟩ := entries_updateFirst (f := f) h
  have hnone : l₁.find? (fun c => key c == k) = none :=
    List.find?_eq_none.mpr fun c hc => by simp [hl₁ c hc]
  rw [lookup, updateKey, hnew, List.append_assoc, List.find?_append, hnone, hf]
  simp [hb]

/-- What is found after filling in an entry with a new key. -/
theorem lookup_fill (h : t.lookup key (key a) = none) (hf : t.fill a = some t') :
    t'.lookup key (key a) = some a := by
  cases hfind : t'.lookup key (key a) with
  | none =>
    have hmem : a ∈ t'.entries := (mem_entries_fill hf).mpr (Or.inl rfl)
    exact absurd rfl (lookup_eq_none_iff.mp hfind a hmem)
  | some b =>
    have hb : b ∈ t'.entries := List.mem_of_find?_eq_some hfind
    have hkey : key b = key a := by simpa using List.find?_some hfind
    rcases (mem_entries_fill hf).mp hb with rfl | hb
    · rfl
    · exact absurd hkey (lookup_eq_none_iff.mp h b hb)

/-- Updating the entry with key `k`: every other entry stays, and that one becomes what `f` makes
of it. -/
theorem mem_entries_updateKey (h : KeysNodup key t) (f : α → Option α) :
    b ∈ (t.updateKey key k f).entries ↔
      (b ∈ t.entries ∧ key b ≠ k) ∨ ∃ a ∈ t.entries, key a = k ∧ f a = some b := by
  cases hfind : t.lookup key k with
  | none =>
    have hno := lookup_eq_none_iff.mp hfind
    rw [updateKey_of_lookup_eq_none hfind]
    constructor
    · exact fun hb => Or.inl ⟨hb, hno b hb⟩
    · rintro (⟨hb, -⟩ | ⟨a, ha, hk, -⟩)
      · exact hb
      · exact absurd hk (hno a ha)
  | some a =>
    obtain ⟨ha, hk⟩ := (lookup_eq_some_iff h).mp hfind
    obtain ⟨l₁, l₂, hold, -, hnew⟩ := entries_updateFirst (f := f) hfind
    have hone : ∀ c ∈ t.entries, key c = k → c = a := fun c hc hck =>
      List.inj_on_of_nodup_map h hc ha (hck.trans hk.symm)
    have hnot : a ∉ l₁ ++ l₂ := by
      have hnd : (l₁ ++ a :: l₂).Nodup := hold ▸ List.Nodup.of_map key h
      exact (List.nodup_middle.mp hnd).notMem
    have hrest : ∀ c, c ∈ l₁ ++ l₂ ↔ c ∈ t.entries ∧ key c ≠ k := by
      intro c
      rw [hold]
      constructor
      · intro hc
        have hc' : c ∈ l₁ ++ a :: l₂ := List.perm_middle.mem_iff.mpr (List.mem_cons_of_mem _ hc)
        refine ⟨hc', fun hck => hnot ?_⟩
        rwa [hone c (hold ▸ hc') hck] at hc
      · rintro ⟨hc, hck⟩
        rcases List.mem_cons.mp (List.perm_middle.mem_iff.mp hc) with rfl | hc
        · exact absurd hk hck
        · exact hc
    rw [updateKey, hnew]
    constructor
    · intro hb
      rw [List.append_assoc, List.mem_append, List.mem_append] at hb
      rcases hb with hb | hb | hb
      · exact Or.inl ((hrest b).mp (List.mem_append_left _ hb))
      · exact Or.inr ⟨a, ha, hk, by simpa using hb⟩
      · exact Or.inl ((hrest b).mp (List.mem_append_right _ hb))
    · rintro (hb | ⟨c, hc, hck, hfb⟩)
      · rcases List.mem_append.mp ((hrest b).mpr hb) with hb | hb <;> simp [hb]
      · obtain rfl := hone c hc hck
        simp [hfb]

/-- Updating keeps keys distinct when `f` keeps the key or drops the entry. -/
theorem KeysNodup.updateKey (h : KeysNodup key t) {f : α → Option α}
    (hf : ∀ a b, f a = some b → key b = key a) : KeysNodup key (t.updateKey key k f) := by
  cases hfind : t.lookup key k with
  | none =>
    rw [updateKey_of_lookup_eq_none hfind]
    exact h
  | some a =>
    obtain ⟨l₁, l₂, hold, -, hnew⟩ := entries_updateFirst (f := f) hfind
    have h' : ((l₁ ++ a :: l₂).map key).Nodup := hold ▸ h
    rw [KeysNodup, Slots.updateKey, hnew]
    cases hfa : f a with
    | none =>
      refine h'.sublist (List.Sublist.map key ?_)
      simp
    | some b =>
      have hkey : key b = key a := hf a b hfa
      simpa [hkey] using h'

end Keyed

/-! ### Tables without holes -/

private theorem reduceOption_map_some (l : List α) : (l.map some).reduceOption = l := by
  induction l with
  | nil => rfl
  | cons a l ih => simp [ih]

/-- Every occupied cell comes before every vacant one. -/
def Compact (t : Slots α n) : Prop :=
  t.cells = t.entries.map some ++ List.replicate (n - t.entries.length) none

theorem compact_empty : (empty α n).Compact := by
  simp [Compact, empty, entries, List.reduceOption_replicate_none]

/-- A table without holes is determined by what it holds. -/
theorem Compact.ext {t u : Slots α n} (ht : t.Compact) (hu : u.Compact)
    (h : t.entries = u.entries) : t = u := by
  have hcells : t.cells = u.cells := by rw [ht, hu, h]
  cases t
  cases u
  simp only at hcells
  simp only [hcells]

private theorem fillCells_map_some (a : α) (l : List α) (k : ℕ) :
    fillCells a (l.map some ++ List.replicate (k + 1) none)
      = (l ++ [a]).map some ++ List.replicate k none := by
  induction l with
  | nil => simp [fillCells, List.replicate_succ]
  | cons b l ih => simp [fillCells, ih]

/-- Without holes, a new entry goes behind all old ones. -/
theorem entries_fill_of_compact {t t' : Slots α n} {a : α} (ht : t.Compact)
    (h : t.fill a = some t') : t'.Compact ∧ t'.entries = t.entries ++ [a] := by
  have hroom : t.entries.length < n := by
    have hne : ¬ t.entries.length = n := fun hn => by simp [fill_eq_none_iff.mpr hn] at h
    have := t.length_entries_le
    omega
  unfold fill at h
  split at h
  · obtain rfl := Option.some.inj h
    have hcells : fillCells a t.cells
        = (t.entries ++ [a]).map some ++ List.replicate (n - (t.entries.length + 1)) none := by
      conv_lhs => rw [ht, show n - t.entries.length = (n - (t.entries.length + 1)) + 1 by omega]
      exact fillCells_map_some a t.entries _
    have hentries : (⟨fillCells a t.cells, by simp [t.length_cells]⟩ : Slots α n).entries
        = t.entries ++ [a] := by
      change (fillCells a t.cells).reduceOption = t.entries ++ [a]
      rw [hcells]
      simp [List.reduceOption_append, List.reduceOption_replicate_none, reduceOption_map_some]
    refine ⟨?_, hentries⟩
    rw [Compact, hentries]
    simpa using hcells
  · cases h

private theorem updateCells_map_some (p : α → Bool) (f : α → α) (l : List α) (k : ℕ) :
    ∃ l' : List α, updateCells p (fun b => some (f b)) (l.map some ++ List.replicate k none)
      = l'.map some ++ List.replicate k none := by
  induction l with
  | nil =>
    refine ⟨[], ?_⟩
    induction k with
    | zero => rfl
    | succ k ih => simpa [List.replicate_succ, updateCells] using ih
  | cons b l ih =>
    obtain ⟨l', hl'⟩ := ih
    by_cases hb : p b = true
    · exact ⟨f b :: l, by simp [updateCells, hb]⟩
    · exact ⟨b :: l', by simp [updateCells, hb, hl']⟩

/-- Changing an entry in place leaves no hole. -/
theorem Compact.updateFirst {t : Slots α n} (ht : t.Compact) (p : α → Bool) (f : α → α) :
    (t.updateFirst p fun b => some (f b)).Compact := by
  obtain ⟨l', hl'⟩ := updateCells_map_some p f t.entries (n - t.entries.length)
  rw [← ht] at hl'
  have hentries : (t.updateFirst p fun b => some (f b)).entries = l' := by
    simp [entries, Slots.updateFirst, hl', List.reduceOption_append,
      List.reduceOption_replicate_none, reduceOption_map_some]
  have hlen : l'.length = t.entries.length := by
    have h := congrArg List.length hl'
    have := t.length_entries_le
    simp only [length_updateCells, t.length_cells, List.length_append, List.length_map,
      List.length_replicate] at h
    omega
  rw [Compact, hentries, hlen]
  exact hl'

/-! ### Loading a table

The persisted form of a table is a list of entries; loading one skips an entry whose key is
already there. -/

section Load

variable {κ : Type*} [DecidableEq κ] (key : α → κ)

/-- Fill in `a` unless its key is already present; `none` when there is no room. -/
def insertNew (t : Slots α n) (a : α) : Option (Slots α n) :=
  if (t.lookup key (key a)).isSome then some t else t.fill a

/-- Load entries one after another, dropping those that find no room. -/
def insertAll (t : Slots α n) (l : List α) : Slots α n :=
  l.foldl (fun t a => (t.insertNew key a).getD t) t

variable {key}

/-- Changing entries in place leaves no hole. -/
theorem Compact.updateKey {t : Slots α n} (ht : t.Compact) (k : κ) (f : α → α) :
    (t.updateKey key k fun b => some (f b)).Compact :=
  ht.updateFirst _ f

/-- Loading entries with fresh, distinct keys into a table without holes appends them all, and
none is refused. -/
theorem foldlM_insertNew {t : Slots α n} {l : List α} (ht : t.Compact)
    (hnd : ((t.entries ++ l).map key).Nodup) (hlen : t.entries.length + l.length ≤ n) :
    ∃ t' : Slots α n, l.foldlM (insertNew key) t = some t' ∧ t.insertAll key l = t' ∧
      t'.Compact ∧ t'.entries = t.entries ++ l := by
  induction l generalizing t with
  | nil => exact ⟨t, rfl, rfl, ht, by simp⟩
  | cons a l ih =>
    have hnone : t.lookup key (key a) = none := by
      rw [lookup_eq_none_iff]
      intro b hb hkey
      rw [List.map_append, List.map_cons] at hnd
      refine (List.nodup_middle.mp hnd).notMem ?_
      rw [← hkey]
      exact List.mem_append_left _ (List.mem_map_of_mem hb)
    rw [List.length_cons] at hlen
    have hroom : t.fill a ≠ none := by
      rw [Ne, fill_eq_none_iff]
      omega
    obtain ⟨t₁, ht₁⟩ := Option.ne_none_iff_exists'.mp hroom
    obtain ⟨hcompact, hentries⟩ := entries_fill_of_compact ht ht₁
    have hstep : t.insertNew key a = some t₁ := by simp [insertNew, hnone, ht₁]
    have hroom₁ : t₁.entries.length + l.length ≤ n := by
      rw [hentries, List.length_append, List.length_singleton]
      omega
    obtain ⟨t', hfold, hall, hcompact', hentries'⟩ :=
      ih hcompact (by simpa [hentries] using hnd) hroom₁
    refine ⟨t', ?_, ?_, hcompact', by rw [hentries', hentries]; simp⟩
    · rw [List.foldlM_cons, hstep]
      exact hfold
    · rw [← hall, insertAll, List.foldl_cons, hstep]
      rfl

end Load

/-- Reading the cells by index, front to back, reads the entries. -/
theorem filterMap_range_cells (t : Slots α n) :
    (List.range n).filterMap (fun i => t.cells[i]?.join) = t.entries := by
  have key : ∀ cs : List (Option α),
      (List.range cs.length).filterMap (fun i => cs[i]?.join) = cs.reduceOption := by
    intro cs
    induction cs with
    | nil => rfl
    | cons c cs ih =>
      rw [List.length_cons, List.range_succ_eq_map, List.filterMap_cons, List.filterMap_map]
      cases c <;> simpa [Function.comp_def] using ih
  have h := key t.cells
  rwa [t.length_cells] at h

end Slots

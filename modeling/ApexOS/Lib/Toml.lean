import Mathlib.Data.Int.Notation
import Mathlib.Data.List.Nodup
import Mathlib.Algebra.Group.Int.Defs

/-!
# TOML documents

A document by what it holds, under two readings. An editing library sees the form a value was
written in, so that `[t]` and `t = { }` are different things; a deserialiser sees maps and
sequences, and takes either form. Comments and spacing are left out.

What an edited document becomes is what its text says when it is read back. There is one
difference: an array of tables that has lost its last table is written as nothing at all. A `Doc`
is a document that has been through this, and carries that as a field.

## Main definitions

* `Toml`: values, in the form they are written in
* `Toml.asTable`, `asArrayOfTables`: what an editor asks for
* `Toml.asMap`, `asSeq`, `asVariant`: what a deserialiser asks for
* `setEntry`: an entry is set, in its place or at the end
* `Toml.Doc`, `Doc.set`: a document as its text has it, and an edit of it

## Main results

* `mapM_setEntry`: reading all entries, after one was set
* `Toml.Doc.get?_set`: what an edited document holds
* `Toml.Doc.set_set`, `set_self`: of two settings the later stands, and what was there may be put
  back
-/

/-! ### Entries -/

section Entries

variable {α β : Type*} {key other : String} {value : α} {entries : List (String × α)}

/-- Set an entry: in its place, or at the end. -/
def setEntry (key : String) (value : α) : List (String × α) → List (String × α)
  | [] => [(key, value)]
  | entry :: entries =>
    if entry.1 = key then (key, value) :: entries else entry :: setEntry key value entries

@[simp] theorem setEntry_nil (key : String) (value : α) :
    setEntry key value [] = [(key, value)] := rfl

theorem setEntry_cons (key : String) (value : α) (entry : String × α)
    (entries : List (String × α)) : setEntry key value (entry :: entries) =
      if entry.1 = key then (key, value) :: entries
      else entry :: setEntry key value entries := rfl

theorem lookup_cons_ite (entry : String × α) (entries : List (String × α)) (key : String) :
    (entry :: entries).lookup key = if entry.1 = key then some entry.2 else entries.lookup key := by
  rw [List.lookup_cons]
  by_cases h : entry.1 = key
  · simp [h]
  · simp [h, beq_false_of_ne (Ne.symm h)]

@[simp] theorem lookup_setEntry_self (key : String) (value : α) (entries : List (String × α)) :
    (setEntry key value entries).lookup key = some value := by
  induction entries with
  | nil => simp
  | cons entry entries ih =>
    rw [setEntry_cons]
    split
    · rw [lookup_cons_ite, if_pos rfl]
    · rename_i hne
      rw [lookup_cons_ite, if_neg hne, ih]

theorem lookup_setEntry_of_ne (hne : other ≠ key) (value : α) (entries : List (String × α)) :
    (setEntry key value entries).lookup other = entries.lookup other := by
  induction entries with
  | nil => simpa using hne
  | cons entry entries ih =>
    rw [setEntry_cons]
    split
    · rename_i heq
      rw [lookup_cons_ite, lookup_cons_ite, if_neg (Ne.symm hne), heq, if_neg (Ne.symm hne)]
    · rw [lookup_cons_ite, lookup_cons_ite, ih]

/-- The later of two settings stands. -/
@[simp] theorem setEntry_setEntry (key : String) (v w : α) (entries : List (String × α)) :
    setEntry key w (setEntry key v entries) = setEntry key w entries := by
  induction entries with
  | nil => simp [setEntry_cons]
  | cons entry entries ih =>
    by_cases h : entry.1 = key
    · simp [setEntry_cons, h]
    · simp [setEntry_cons, h, ih]

theorem setEntry_eq_self (h : entries.lookup key = some value) :
    setEntry key value entries = entries := by
  induction entries with
  | nil => cases h
  | cons entry entries ih =>
    rw [lookup_cons_ite] at h
    rw [setEntry_cons]
    split at h
    · rename_i heq
      rw [if_pos heq, ← Option.some.inj h, ← heq]
    · rename_i hne
      rw [if_neg hne, ih h]

theorem setEntry_of_not_mem (h : key ∉ entries.map Prod.fst) :
    setEntry key value entries = entries ++ [(key, value)] := by
  induction entries with
  | nil => rfl
  | cons entry entries ih =>
    rw [List.map_cons, List.mem_cons, not_or] at h
    rw [setEntry_cons, if_neg (Ne.symm h.1), ih h.2, List.cons_append]

theorem mem_setEntry {entry : String × α} (h : entry ∈ setEntry key value entries) :
    entry = (key, value) ∨ entry ∈ entries := by
  induction entries with
  | nil => exact .inl (List.mem_singleton.mp h)
  | cons e entries ih =>
    rw [setEntry_cons] at h
    split at h
    · exact (List.mem_cons.mp h).imp id (List.mem_cons_of_mem e)
    · rcases List.mem_cons.mp h with rfl | h
      · exact .inr List.mem_cons_self
      · exact (ih h).imp id (List.mem_cons_of_mem e)

theorem nodup_setEntry (h : (entries.map Prod.fst).Nodup) :
    ((setEntry key value entries).map Prod.fst).Nodup := by
  induction entries with
  | nil => simp
  | cons entry entries ih =>
    rw [List.map_cons, List.nodup_cons] at h
    rw [setEntry_cons]
    split
    · rename_i heq
      rw [List.map_cons, List.nodup_cons, ← heq]
      exact h
    · rename_i hne
      rw [List.map_cons, List.nodup_cons]
      refine ⟨fun hmem => ?_, ih h.2⟩
      obtain ⟨e, he, hkey⟩ := List.mem_map.mp hmem
      rcases mem_setEntry he with rfl | he
      · exact hne hkey.symm
      · exact h.1 (List.mem_map.mpr ⟨e, he, hkey⟩)

/-- Entries with new keys, set one after the other, go to the end. -/
theorem foldl_setEntry (entries new : List (String × α))
    (h : ((entries ++ new).map Prod.fst).Nodup) :
    new.foldl (fun acc e => setEntry e.1 e.2 acc) entries = entries ++ new := by
  induction new generalizing entries with
  | nil => simp
  | cons e new ih =>
    have hfresh : e.1 ∉ entries.map Prod.fst := by
      rw [List.map_append, List.map_cons] at h
      exact fun hmem => (List.nodup_append.mp h).2.2 _ hmem _ List.mem_cons_self rfl
    rw [List.foldl_cons, setEntry_of_not_mem hfresh, ih _ (by simpa using h), List.append_assoc,
      List.singleton_append]

/-- **Reading all entries, after one was set**: the same reading, with the new value in place. -/
theorem mapM_setEntry {read : α → Option β} {values : List (String × β)} {new : α} {b : β}
    (h : entries.mapM (fun e => (read e.2).map (e.1, ·)) = some values) (hnew : read new = some b) :
    (setEntry key new entries).mapM (fun e => (read e.2).map (e.1, ·))
      = some (setEntry key b values) := by
  induction entries generalizing values with
  | nil =>
    cases h
    simp [hnew]
  | cons entry entries ih =>
    obtain ⟨v, hv, vs, hvs, rfl⟩ : ∃ v, read entry.2 = some v ∧ ∃ vs,
        entries.mapM (fun e => (read e.2).map (e.1, ·)) = some vs ∧
            (entry.1, v) :: vs = values := by
      simpa [List.mapM_cons, Option.bind_eq_some_iff] using h
    rw [setEntry_cons, setEntry_cons]
    split
    · simp [List.mapM_cons, hnew, hvs]
    · simp [List.mapM_cons, hv, ih hvs]

end Entries

/-! ### Values -/

/-- A value, in the form it is written in. -/
inductive Toml
  | string (s : String)
  | integer (n : ℤ)
  | boolean (b : Bool)
  /-- a float or a date, by its text -/
  | scalar (text : String)
  | array (items : List Toml)
  /-- `{ k = v }` -/
  | inlineTable (entries : List (String × Toml))
  /-- `[t]`, or dotted keys -/
  | table (entries : List (String × Toml))
  /-- `[[t]]` -/
  | arrayOfTables (tables : List (List (String × Toml)))

namespace Toml

/-- The value as a string. -/
def asStr : Toml → Option String
  | string s => some s
  | _ => none

/-- The value as a boolean. -/
def asBool : Toml → Option Bool
  | boolean b => some b
  | _ => none

/-- The value as an unsigned word of 32 bits. -/
def asU32 : Toml → Option ℕ
  | integer n => if 0 ≤ n ∧ n < 2 ^ 32 then some n.toNat else none
  | _ => none

/-- A table that was written as one. -/
def asTable : Toml → Option (List (String × Toml))
  | table entries => some entries
  | _ => none

/-- An array of tables that was written as one. -/
def asArrayOfTables : Toml → Option (List (List (String × Toml)))
  | arrayOfTables tables => some tables
  | _ => none

/-- A table, in either form. -/
def asMap : Toml → Option (List (String × Toml))
  | table entries => some entries
  | inlineTable entries => some entries
  | _ => none

/-- An array, in either form. -/
def asSeq : Toml → Option (List Toml)
  | array items => some items
  | arrayOfTables tables => some (tables.map table)
  | _ => none

/-- Nothing is in it. -/
def isEmptyContainer : Toml → Bool
  | array [] | inlineTable [] | table [] | arrayOfTables [] => true
  | _ => false

/-- The name of a variant without data: a string, or a table with that one key and nothing in it. -/
def asVariant : Toml → Option String
  | string s => some s
  | table [(name, v)] | inlineTable [(name, v)] => if v.isEmptyContainer then some name else none
  | _ => none

/-- A field that has to be there. -/
def required {α : Type*} (entries : List (String × Toml)) (key : String) (read : Toml → Option α) :
    Option α :=
  (entries.lookup key).bind read

/-- A field with a default. A value that does not read is an error all the same. -/
def orDefault {α : Type*} (entries : List (String × Toml)) (key : String) (read : Toml → Option α)
    (default : α) : Option α :=
  match entries.lookup key with
  | none => some default
  | some v => read v

/-- A field that may be absent. -/
def optional {α : Type*} (entries : List (String × Toml)) (key : String) (read : Toml → Option α) :
    Option (Option α) :=
  orDefault entries key (fun v => (read v).map some) none

/-- A map from strings. -/
def readMap {α : Type*} (read : Toml → Option α) (v : Toml) : Option (List (String × α)) :=
  v.asMap.bind fun entries => entries.mapM fun e => (read e.2).map (e.1, ·)

/-- A sequence. -/
def readSeq {α : Type*} (read : Toml → Option α) (v : Toml) : Option (List α) :=
  v.asSeq.bind fun items => items.mapM read

/-! ### Documents -/

/-- An array of tables without a table: writing it out leaves no trace. -/
def vanishes : Toml → Bool
  | arrayOfTables [] => true
  | _ => false

/-- A document, as its text has it: keys are distinct, and no array of tables is empty. -/
structure Doc where
  entries : List (String × Toml)
  nodup : (entries.map Prod.fst).Nodup
  written : ∀ e ∈ entries, e.2.vanishes = false

namespace Doc

/-- What is under a key. -/
def get? (d : Doc) (key : String) : Option Toml := d.entries.lookup key

/-- What an edited document says once its text is read back. -/
def save (entries : List (String × Toml)) (nodup : (entries.map Prod.fst).Nodup) : Doc where
  entries := entries.filter fun e => !e.2.vanishes
  nodup := nodup.sublist (List.filter_sublist.map Prod.fst)
  written e he := by simpa using (List.mem_filter.mp he).2

theorem ext_entries {d d' : Doc} (h : d.entries = d'.entries) : d = d' := by
  cases d
  cases d'
  subst h
  rfl

/-- A document that was not edited reads back as it is. -/
theorem save_entries (d : Doc) (h : (d.entries.map Prod.fst).Nodup) : save d.entries h = d :=
  ext_entries (List.filter_eq_self.mpr fun e he => by simp [d.written e he])

theorem lookup_filter_of_nodup {entries : List (String × Toml)} {p : Toml → Bool} {key : String}
    (h : (entries.map Prod.fst).Nodup) :
    (entries.filter fun e => p e.2).lookup key = (entries.lookup key).filter p := by
  induction entries with
  | nil => rfl
  | cons entry entries ih =>
    rw [List.map_cons, List.nodup_cons] at h
    by_cases hp : p entry.2 = true
    · rw [List.filter_cons_of_pos (p := fun e : String × Toml => p e.2) hp, lookup_cons_ite,
        lookup_cons_ite, ih h.2]
      split
      · simp [Option.filter, hp]
      · rfl
    · rw [List.filter_cons_of_neg (p := fun e : String × Toml => p e.2) hp, lookup_cons_ite, ih h.2]
      split
      · rename_i heq
        have habsent : entries.lookup key = none := by
          rw [List.lookup_eq_none_iff]
          intro e he
          have hne : e.1 ≠ key := fun hkey =>
            h.1 (List.mem_map.mpr ⟨e, he, hkey.trans heq.symm⟩)
          simpa using Ne.symm hne
        simp [Option.filter, habsent, hp]
      · rfl

/-- An entry is set, and the document written out and read back. -/
def set (d : Doc) (key : String) (value : Toml) : Doc :=
  save (setEntry key value d.entries) (nodup_setEntry d.nodup)

/-- **What an edited document holds**: the new value, unless it left no trace, and the rest as
before. -/
theorem get?_set (d : Doc) (key other : String) (value : Toml) :
    (d.set key value).get? other
      = if other = key then (if value.vanishes then none else some value) else d.get? other := by
  have hlookup : (d.set key value).get? other
      = ((setEntry key value d.entries).lookup other).filter fun v => !v.vanishes :=
    lookup_filter_of_nodup (p := fun v => !v.vanishes) (nodup_setEntry d.nodup)
  rw [hlookup]
  by_cases heq : other = key
  · subst heq
    rw [lookup_setEntry_self, if_pos rfl]
    cases hv : value.vanishes <;> simp [hv]
  · rw [lookup_setEntry_of_ne heq, if_neg heq, get?]
    cases hv : d.entries.lookup other with
    | none => rfl
    | some v =>
      have hmem : (other, v) ∈ d.entries := by
        obtain ⟨l₁, l₂, hl, -⟩ := List.lookup_eq_some_iff.mp hv
        simp [hl]
      simp [d.written _ hmem]

theorem get?_set_self (d : Doc) {key : String} {value : Toml} (hv : value.vanishes = false) :
    (d.set key value).get? key = some value := by
  simp [get?_set, hv]

theorem get?_set_of_ne (d : Doc) {key other : String} (hne : other ≠ key) (value : Toml) :
    (d.set key value).get? other = d.get? other := by
  rw [get?_set, if_neg hne]

theorem entries_set (d : Doc) {key : String} {value : Toml} (hv : value.vanishes = false) :
    (d.set key value).entries = setEntry key value d.entries := by
  refine List.filter_eq_self.mpr fun e he => ?_
  rcases mem_setEntry he with rfl | he
  · simp [hv]
  · simp [d.written e he]

/-- The later of two settings stands. -/
theorem set_set (d : Doc) {key : String} {value : Toml} (hv : value.vanishes = false) (w : Toml) :
    (d.set key value).set key w = d.set key w := by
  have hentries : setEntry key w (d.set key value).entries = setEntry key w d.entries := by
    rw [entries_set d hv, setEntry_setEntry]
  refine ext_entries ?_
  change (setEntry key w (d.set key value).entries).filter _ = (setEntry key w d.entries).filter _
  rw [hentries]

theorem set_self (d : Doc) {key : String} {value : Toml} (h : d.get? key = some value) :
    d.set key value = d := by
  have hentries : setEntry key value d.entries = d.entries := setEntry_eq_self h
  refine ext_entries ?_
  rw [set, save]
  simp only [hentries]
  exact congrArg entries (save_entries d d.nodup)

/-- Reading a field that another edit did not touch. -/
theorem orDefault_set_of_ne {α : Type*} (d : Doc) {key other : String} (hne : other ≠ key)
    (value : Toml) (read : Toml → Option α) (default : α) :
    orDefault (d.set key value).entries other read default
      = orDefault d.entries other read default := by
  have h : (d.set key value).entries.lookup other = d.entries.lookup other :=
    get?_set_of_ne d hne value
  rw [orDefault, orDefault, h]

theorem orDefault_set_self {α : Type*} (d : Doc) {key : String} {value : Toml}
    (hv : value.vanishes = false) (read : Toml → Option α) (default : α) :
    orDefault (d.set key value).entries key read default = read value := by
  have h : (d.set key value).entries.lookup key = some value := get?_set_self d hv
  rw [orDefault, h]

end Doc

end Toml

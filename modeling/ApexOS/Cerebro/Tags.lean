import ApexOS.Cerebro.Reading
import ApexOS.Lib.Run
import ApexOS.Lib.Table
import Mathlib.Data.List.Dedup

/-!
# Tag surgery

`list_tags`, `delete_tag_everywhere` and `rename_tag_everywhere` of
`cerebro/crates/cerebro/src/storage/sqlite.rs`, and the three calls over them in
`cerebro-mcp/src/dispatch.rs`. The surgery is done inside of SQL, on the list of a row that is
unpacked and packed again; here it is a list. A merge is a renaming, whatever the row has already.

## Main definitions

* `Row`, `State`: memories, as far as the statements read them
* `deleteTagEverywhere`, `renameTagEverywhere`, `listTags`: the statements
* `step`: a call
* `State.NoRepeats`: no list has a tag twice
* `Merged`: what a merge is to do
* `Careful`: no row that is renamed has both tags

## Main results

* `rowMerged_rename`: what a merge makes of a row in any case
* `merged_iff`: a merge does what it is to do exactly if no row has both tags
* `tag_surgery`: careful runs keep to the law, and no other call does
* `not_tag_surgery`: a row with both tags
-/

namespace ApexOS.Cerebro.Tags

/-- A row of `memories`. -/
structure Row where
  tags : List String
  agentId : Option AgentId
  visibility : Visibility
  deleted : Bool
  deriving DecidableEq

/-- The rows by id. -/
abbrev State := Table MemoryId Row

/-- A live row that a scope lets through. -/
def Row.seen (scope : VisibilityScope) (r : Row) : Bool :=
  !r.deleted && scope.sqlFilter r.visibility r.agentId

/-- `delete_tag_everywhere`. -/
def deleteTagEverywhere (s : State) (tag : String) (scope : VisibilityScope) : State :=
  s.mapValues fun _ r =>
    if r.seen scope && r.tags.contains tag then { r with tags := r.tags.filter (· ≠ tag) } else r

/-- A tag, renamed. -/
def renamed (old new value : String) : String := if value = old then new else value

/-- A row with a tag renamed. -/
def Row.rename (old new : String) (scope : VisibilityScope) (r : Row) : Row :=
  if r.seen scope && r.tags.contains old then { r with tags := r.tags.map (renamed old new) } else r

/-- `rename_tag_everywhere`. -/
def renameTagEverywhere (s : State) (old new : String) (scope : VisibilityScope) : State :=
  s.mapValues fun _ r => r.rename old new scope

/-- Every tag of every row that a scope lets through. -/
def allTags (s : State) (scope : VisibilityScope) : List String :=
  (s.values.filter (Row.seen scope)).flatMap Row.tags

/-- `list_tags`. -/
def listTags (engine : Reading.Engine) (s : State) (scope : VisibilityScope) : List (String × ℕ) :=
  (engine.scan (Reading.Store.counts (allTags s scope))).mergeSort fun x y => y.2 ≤ x.2

/-- The calls. -/
inductive Action
  | deleteTag (tag : String) (scope : VisibilityScope)
  | renameTag (old new : String) (scope : VisibilityScope)
  | mergeTags (source target : String) (scope : VisibilityScope)

/-- A call. -/
def step (s : State) : Action → State
  | .deleteTag tag scope => deleteTagEverywhere s tag scope
  | .renameTag old new scope => renameTagEverywhere s old new scope
  | .mergeTags source target scope => renameTagEverywhere s source target scope

/-! ### The law -/

/-- **No list has a tag twice.** -/
def State.NoRepeats (s : State) : Prop := ∀ x ∈ s.entries, x.2.tags.Nodup

/-- What a merge is to make of a row. -/
structure RowMerged (x y : String) (scope : VisibilityScope) (r r' : Row) : Prop where
  outside : r.seen scope = false → r' = r
  target : r.seen scope = true → (y ∈ r'.tags ↔ x ∈ r.tags ∨ y ∈ r.tags)
  source : r.seen scope = true → x ∉ r'.tags
  others : r.seen scope = true →
    r'.tags.filter (fun v => v ≠ x ∧ v ≠ y) = r.tags.filter fun v => v ≠ x ∧ v ≠ y
  /-- nothing but the tags is changed -/
  same : { r' with tags := r.tags } = r

/-- **What a merge is to do**: with each row, and with the count of the tag. -/
structure Merged (engine : Reading.Engine) (x y : String) (scope : VisibilityScope) (s t : State) :
    Prop where
  keys : t.keys = s.keys
  rows : ∀ id r r', s.get? id = some r → t.get? id = some r' → RowMerged x y scope r r'
  counted : ∀ n, (y, n) ∈ listTags engine t scope ↔
    n = (t.values.filter (Row.seen scope)).countP (fun r => y ∈ r.tags) ∧ n ≠ 0

/-- No row that is renamed has both tags. -/
def Apart (s : State) (x y : String) (scope : VisibilityScope) : Prop :=
  x = y ∨ ∀ r ∈ s.values, r.seen scope = true → ¬ (x ∈ r.tags ∧ y ∈ r.tags)

/-- The calls that keep the tags of a row apart. -/
def Careful (s : State) : Action → Prop
  | .deleteTag _ _ => True
  | .renameTag old new scope => Apart s old new scope
  | .mergeTags source target scope => Apart s source target scope

/-! ### A list of tags -/

section Lists

variable {x y : String} {l : List String}

theorem renamed_eq_iff {v w : String} : renamed x y v = w ↔ v = x ∧ y = w ∨ v ≠ x ∧ v = w := by
  rw [renamed]
  split
  · rename_i h
    simp [h]
  · rename_i h
    simp [h]

theorem mem_renamed_iff {w : String} :
    w ∈ l.map (renamed x y) ↔ x ∈ l ∧ y = w ∨ w ∈ l ∧ w ≠ x := by
  simp only [List.mem_map, renamed_eq_iff]
  constructor
  · rintro ⟨v, hv, ⟨rfl, h⟩ | ⟨hne, rfl⟩⟩
    · exact .inl ⟨hv, h⟩
    · exact .inr ⟨hv, hne⟩
  · rintro (⟨hx, h⟩ | ⟨hw, hne⟩)
    · exact ⟨x, hx, .inl ⟨rfl, h⟩⟩
    · exact ⟨w, hw, .inr ⟨hne, rfl⟩⟩

/-- **A renaming keeps a list free of repeats** exactly if it does not have both tags. -/
theorem nodup_renamed_iff (h : l.Nodup) (hne : x ≠ y) :
    (l.map (renamed x y)).Nodup ↔ ¬ (x ∈ l ∧ y ∈ l) := by
  constructor
  · rintro hnodup ⟨hx, hy⟩
    have heq : renamed x y x = renamed x y y := by
      rw [renamed, renamed, if_pos rfl, if_neg (Ne.symm hne)]
    exact hne (List.inj_on_of_nodup_map hnodup hx hy heq)
  · intro hboth
    refine List.Nodup.map_on (fun v hv w hw heq => ?_) h
    rw [renamed, renamed] at heq
    split at heq <;> split at heq
    · rename_i hvx hwx
      rw [hvx, hwx]
    · rename_i hvx _
      exact absurd ⟨hvx ▸ hv, heq ▸ hw⟩ hboth
    · rename_i _ hwx
      exact absurd ⟨hwx ▸ hw, heq ▸ hv⟩ hboth
    · exact heq

theorem count_renamed (hne : x ≠ y) :
    (l.map (renamed x y)).count y = l.count x + l.count y := by
  induction l with
  | nil => rfl
  | cons v l ih =>
    rw [List.map_cons, List.count_cons, List.count_cons, List.count_cons, ih]
    by_cases hv : v = x
    · subst hv
      simp [renamed, hne]
      omega
    · simp [renamed, hv]
      omega

theorem filter_others_renamed :
    (l.map (renamed x y)).filter (fun v => v ≠ x ∧ v ≠ y) = l.filter fun v => v ≠ x ∧ v ≠ y := by
  induction l with
  | nil => rfl
  | cons v l ih =>
    rw [List.map_cons, List.filter_cons, List.filter_cons, ih]
    by_cases hv : v = x
    · simp [renamed, hv]
    · simp [renamed, hv]

end Lists

/-! ### Rows -/

section Rows

variable {x y : String} {scope : VisibilityScope} {r : Row}

theorem rename_of_seen (hseen : r.seen scope = true) (hx : x ∈ r.tags) :
    r.rename x y scope = { r with tags := r.tags.map (renamed x y) } := by
  rw [Row.rename, if_pos (by simp [hseen, hx])]

theorem rename_of_not (h : ¬ (r.seen scope = true ∧ x ∈ r.tags)) : r.rename x y scope = r := by
  rw [Row.rename, if_neg (by simpa using h)]

theorem seen_rename (scope' : VisibilityScope) :
    (r.rename x y scope).seen scope' = r.seen scope' := by
  rw [Row.rename]
  split <;> rfl

/-- **In any case** a merge makes of a row what it is to make of it. -/
theorem rowMerged_rename (hne : x ≠ y) : RowMerged x y scope r (r.rename x y scope) := by
  by_cases h : r.seen scope = true ∧ x ∈ r.tags
  · obtain ⟨hseen, hx⟩ := h
    rw [rename_of_seen hseen hx]
    refine ⟨fun hout => ?_, fun _ => ?_, fun _ => ?_, fun _ => filter_others_renamed, rfl⟩
    · rw [hseen] at hout
      cases hout
    · dsimp only
      rw [mem_renamed_iff]
      exact iff_of_true (.inl ⟨hx, rfl⟩) (.inl hx)
    · dsimp only
      rw [mem_renamed_iff]
      rintro (⟨-, h⟩ | ⟨-, h⟩)
      · exact hne h.symm
      · exact h rfl
  · rw [rename_of_not h]
    refine ⟨fun _ => rfl, fun hseen => ?_, fun hseen hx => h ⟨hseen, hx⟩, fun _ => rfl, rfl⟩
    exact (or_iff_right fun hx => h ⟨hseen, hx⟩).symm

/-- A row keeps free of repeats exactly if it is not renamed with both tags. -/
theorem nodup_rename_iff (h : r.tags.Nodup) (hne : x ≠ y) :
    (r.rename x y scope).tags.Nodup ↔ (r.seen scope = true → ¬ (x ∈ r.tags ∧ y ∈ r.tags)) := by
  by_cases hcase : r.seen scope = true ∧ x ∈ r.tags
  · rw [rename_of_seen hcase.1 hcase.2]
    exact (nodup_renamed_iff h hne).trans (by simp [hcase.1])
  · rw [rename_of_not hcase]
    exact iff_of_true h fun hseen hboth => hcase ⟨hseen, hboth.1⟩

theorem count_rename_le_iff (h : r.tags.Nodup) (hne : x ≠ y) (hseen : r.seen scope = true) :
    (r.rename x y scope).tags.count y ≤ 1 ↔ ¬ (x ∈ r.tags ∧ y ∈ r.tags) := by
  by_cases hx : x ∈ r.tags
  · rw [rename_of_seen hseen hx]
    dsimp only
    have hy : ¬ (x ∈ r.tags ∧ y ∈ r.tags) ↔ r.tags.count y = 0 := by
      rw [List.count_eq_zero]
      simp [hx]
    rw [count_renamed hne, List.count_eq_one_of_mem h hx, hy]
    omega
  · rw [rename_of_not fun hcase => hx hcase.2]
    exact iff_of_true (List.nodup_iff_count_le_one.mp h y) fun hboth => hx hboth.1

end Rows

/-! ### The count of a tag -/

theorem mem_listTags {engine : Reading.Engine} {s : State} {scope : VisibilityScope} {y : String}
    {n : ℕ} : (y, n) ∈ listTags engine s scope ↔ n = (allTags s scope).count y ∧ n ≠ 0 := by
  rw [listTags, List.mem_mergeSort, (engine.scan_perm _).mem_iff, Reading.Store.counts,
    List.mem_map]
  constructor
  · rintro ⟨tag, htag, heq⟩
    obtain ⟨rfl, rfl⟩ := Prod.mk.inj heq
    exact ⟨rfl, (List.count_pos_iff.mpr (List.mem_dedup.mp htag)).ne'⟩
  · rintro ⟨rfl, hn⟩
    exact ⟨y, List.mem_dedup.mpr (List.count_pos_iff.mp (Nat.pos_of_ne_zero hn)), rfl⟩

theorem countP_le_count (y : String) (rows : List Row) :
    rows.countP (fun r => y ∈ r.tags) ≤ (rows.flatMap Row.tags).count y := by
  induction rows with
  | nil => exact le_rfl
  | cons r rows ih =>
    rw [List.flatMap_cons, List.count_append, List.countP_cons]
    by_cases hy : y ∈ r.tags
    · have := List.count_pos_iff.mpr hy
      simp only [hy, decide_true, if_true]
      omega
    · simp only [hy, decide_false, Bool.false_eq_true, if_false]
      omega

/-- **A tag is counted once** for each row that has it, if no row has it twice. -/
theorem count_eq_countP_iff (y : String) (rows : List Row) :
    (rows.flatMap Row.tags).count y = rows.countP (fun r => y ∈ r.tags) ↔
      ∀ r ∈ rows, r.tags.count y ≤ 1 := by
  induction rows with
  | nil => simp
  | cons r rows ih =>
    rw [List.flatMap_cons, List.count_append, List.countP_cons, List.forall_mem_cons, ← ih]
    have hle := countP_le_count y rows
    by_cases hy : y ∈ r.tags
    · have := List.count_pos_iff.mpr hy
      simp only [hy, decide_true, if_true]
      omega
    · have := List.count_eq_zero.mpr hy
      simp only [hy, decide_false, Bool.false_eq_true, if_false]
      omega

/-! ### Stores -/

section Stores

variable {s : State} {x y : String} {scope : VisibilityScope}

theorem entries_rename : (renameTagEverywhere s x y scope).entries =
    s.entries.map fun e => (e.1, e.2.rename x y scope) := rfl

theorem values_rename :
    (renameTagEverywhere s x y scope).values = s.values.map (Row.rename x y scope) := by
  rw [Table.values, entries_rename, List.map_map, Table.values, List.map_map]
  rfl

/-- The rows that are seen after a renaming. -/
theorem seen_values_rename (scope' : VisibilityScope) :
    (renameTagEverywhere s x y scope).values.filter (Row.seen scope') =
      (s.values.filter (Row.seen scope')).map (Row.rename x y scope) := by
  rw [values_rename, List.filter_map]
  congr 1
  exact List.filter_congr fun r _ => seen_rename scope'

theorem renamed_self (v : String) : renamed x x v = v := by
  rw [renamed]
  split
  · rename_i h
    exact h.symm
  · rfl

theorem rename_self (r : Row) : r.rename x x scope = r := by
  rw [Row.rename, (funext renamed_self : renamed x x = id), List.map_id]
  split <;> rfl

/-- **A renaming keeps a store free of repeats** exactly if no row has both tags. -/
theorem noRepeats_rename_iff (h : s.NoRepeats) :
    (renameTagEverywhere s x y scope).NoRepeats ↔ Apart s x y scope := by
  rw [State.NoRepeats, entries_rename, List.forall_mem_map]
  by_cases hne : x = y
  · subst hne
    refine iff_of_true (fun e he => ?_) (.inl rfl)
    rw [rename_self]
    exact h e he
  · rw [Apart, or_iff_right hne, Table.values, List.forall_mem_map]
    exact forall₂_congr fun e he => nodup_rename_iff (h e he) hne

/-- **A merge does what it is to do** exactly if no row has both tags. -/
theorem merged_iff (engine : Reading.Engine) (h : s.NoRepeats) (hne : x ≠ y) :
    Merged engine x y scope s (renameTagEverywhere s x y scope) ↔ Apart s x y scope := by
  have hcount : (allTags (renameTagEverywhere s x y scope) scope).count y =
      ((renameTagEverywhere s x y scope).values.filter (Row.seen scope)).countP
        (fun r => y ∈ r.tags) ↔ Apart s x y scope := by
    rw [allTags, count_eq_countP_iff, seen_values_rename, List.forall_mem_map, Apart,
      or_iff_right hne]
    have hnodup : ∀ r ∈ s.values, r.tags.Nodup := by
      rw [Table.values, List.forall_mem_map]
      exact h
    constructor
    · intro hle r hr hseen
      exact (count_rename_le_iff (hnodup r hr) hne hseen).mp
        (hle r (List.mem_filter.mpr ⟨hr, hseen⟩))
    · intro hboth r hr
      obtain ⟨hr, hseen⟩ := List.mem_filter.mp hr
      exact (count_rename_le_iff (hnodup r hr) hne hseen).mpr (hboth r hr hseen)
  rw [← hcount]
  constructor
  · intro hmerged
    have hcounted := hmerged.counted
    simp only [mem_listTags] at hcounted
    by_contra hdiff
    by_cases hzero : (allTags (renameTagEverywhere s x y scope) scope).count y = 0
    · refine hdiff (hzero.trans ?_)
      by_contra hpos
      exact hpos (((hcounted _).mpr ⟨rfl, Ne.symm hpos⟩).1.trans hzero).symm
    · exact hdiff ((hcounted _).mp ⟨rfl, hzero⟩).1
  · intro heq
    refine ⟨?_, fun id r r' hr hr' => ?_, fun n => ?_⟩
    · rw [Table.keys, entries_rename, List.map_map]
      rfl
    · rw [renameTagEverywhere, Table.get?_mapValues, hr, Option.map_some] at hr'
      obtain rfl := Option.some.inj hr'
      exact rowMerged_rename hne
    · rw [mem_listTags, heq]

theorem noRepeats_delete (h : s.NoRepeats) (tag : String) (scope : VisibilityScope) :
    (deleteTagEverywhere s tag scope).NoRepeats := by
  refine List.forall_mem_map.mpr fun e he => ?_
  dsimp only
  split
  · exact (h e he).filter _
  · exact h e he

/-- A call keeps a store free of repeats exactly if it is careful. -/
theorem noRepeats_step_iff (h : s.NoRepeats) (e : Action) :
    (step s e).NoRepeats ↔ Careful s e := by
  cases e with
  | deleteTag tag scope => exact iff_of_true (noRepeats_delete h tag scope) trivial
  | renameTag old new scope => exact noRepeats_rename_iff h
  | mergeTags source target scope => exact noRepeats_rename_iff h

end Stores

/-- A call, with no answer to look at. -/
def call (s : State) (e : Action) : State × Unit := (step s e, ())

/-- **A careful run** keeps to the law, and each of its merges does what it is to do. And no call
that is not careful does. -/
theorem tag_surgery (engine : Reading.Engine) :
    (∀ (s : State) (es : List Action), s.NoRepeats →
      Run.Always call s (fun _ t e => Careful t e) es →
      (Run.final call s es).NoRepeats ∧
        Run.Always call s (fun _ t e => ∀ x y scope, e = .mergeTags x y scope → x ≠ y →
          Merged engine x y scope t (step t e)) es) ∧
    (∀ (s : State) (e : Action), s.NoRepeats → ((step s e).NoRepeats ↔ Careful s e)) ∧
    ∀ (s : State) (x y : String) (scope : VisibilityScope), s.NoRepeats → x ≠ y →
      (Merged engine x y scope s (step s (.mergeTags x y scope)) ↔
        Careful s (.mergeTags x y scope)) := by
  have hkeeps : ∀ (past : List (Action × Unit)) (t : State) (e : Action), t.NoRepeats →
      Careful t e → (call t e).1.NoRepeats :=
    fun _ _ e ht hcareful => (noRepeats_step_iff ht e).mpr hcareful
  refine ⟨fun s es h hcareful => ⟨?_, ?_⟩, fun s e h => noRepeats_step_iff h e,
    fun s x y scope h hne => merged_iff engine h hne⟩
  · exact Run.invariant (I := fun _ t => t.NoRepeats) h hkeeps hcareful
  · refine Run.Always.of_invariant (I := fun _ t => t.NoRepeats) h hkeeps ?_ hcareful
    rintro _ t e ht hstep x y scope rfl hne
    exact (merged_iff engine ht hne).mpr hstep

/-! ### Two runs -/

/-- Rows come in the order they are stored in. -/
def stored : Reading.Engine := Reading.Store.plain.engine

/-- A memory that everyone may see. -/
def tagged (tags : List String) : State := Table.empty.insert "m" ⟨tags, none, .shared, false⟩

theorem noRepeats_tagged {tags : List String} (h : tags.Nodup) : (tagged tags).NoRepeats := by
  intro x hx
  obtain rfl := List.mem_singleton.mp hx
  exact h

/-- Two tags are merged into one, and that one is deleted. -/
theorem tag_surgery_twice : (Run.final call (tagged ["db", "sql"])
    [.mergeTags "sql" "storage" .everything, .deleteTag "storage" .everything]).NoRepeats := by
  refine ((tag_surgery stored).1 (tagged ["db", "sql"]) _ (noRepeats_tagged (by decide)) ?_).1
  rw [Run.always_cons, Run.always_cons]
  refine ⟨.inr fun r hr _ => ?_, trivial, Run.Always.nil⟩
  obtain rfl := List.mem_singleton.mp hr
  decide

/-- **A memory that has both tags** has the target twice after the merge, and is counted twice. -/
theorem not_tag_surgery :
    ¬ (step (tagged ["db", "sql"]) (.mergeTags "sql" "db" .everything)).NoRepeats ∧
    ¬ Merged stored "sql" "db" .everything (tagged ["db", "sql"])
      (step (tagged ["db", "sql"]) (.mergeTags "sql" "db" .everything)) := by
  constructor
  · intro h
    exact absurd (h _ (List.mem_singleton_self _)) (by decide)
  · intro h
    have hcounted := (h.counted 2).mp (mem_listTags.mpr (by decide))
    exact absurd hcounted.1 (by decide)

end ApexOS.Cerebro.Tags

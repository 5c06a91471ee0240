import ApexOS.Lib.Slots
import ApexOS.Lib.Run
import Mathlib.Data.List.MinMax
import Mathlib.Data.List.Dedup
import Mathlib.Data.UInt
import Mathlib.Tactic.Common

/-!
# The neighbour table

Who is on the air: a table of eight entries, one for each sender of whom a fresh frame was heard;
where it is full, the entry that was silent longest makes room. Forgetting a neighbour is allowed,
so what the table says of one is right, but it may be silent about one.

## Main definitions

* `Neighbors.heard`: note a frame
* `Neighbors.isAlive`, `Neighbors.alive`: who is there, and how many

## Main results

* `heard_cases`: what a frame does to the table
* `isAlive_when`: who is taken to be there was heard less than thirty seconds ago, and who was is
  taken to be there unless eight others have been heard since
* `alive_eq`: as many are counted as are on the air, up to eight
-/

namespace ApexOS.Brainstem

/-- `MAX_NEIGHBORS`. -/
def maxNeighbors : ℕ := 8

/-- `NEIGHBOR_TIMEOUT_MS`. -/
def neighborTimeoutMs : ℕ := 30000

/-- `Entry`; of what is heard, the same is noted. -/
structure Neighbor where
  nodeId : UInt16
  lastSeenMs : ℕ
  rssiDbm : ℤ
  deriving DecidableEq, Repr

abbrev Neighbors : Type := Slots Neighbor maxNeighbors

namespace Neighbors

/-- `Neighbors::new`. -/
def new : Neighbors := Slots.empty Neighbor maxNeighbors

/-- The entry that was silent longest, the first of several, and where it is. -/
def stalest (t : Neighbors) : Option (Neighbor × ℕ) :=
  (t.cells.zipIdx.filterMap fun x => x.1.map (·, x.2)).argmin fun x => x.1.lastSeenMs

/-- `Neighbors::heard`, with `slot_for`. -/
def heard (t : Neighbors) (e : Neighbor) : Neighbors :=
  match t.lookup Neighbor.nodeId e.nodeId with
  | some _ => t.updateKey Neighbor.nodeId e.nodeId fun old =>
      some { old with lastSeenMs := e.lastSeenMs, rssiDbm := e.rssiDbm }
  | none =>
    match t.fill e with
    | some t => t
    | none =>
      match t.stalest with
      | some (_, i) => ⟨t.cells.set i (some e), by rw [List.length_set, t.length_cells]⟩
      | none => t

def isFresh (now : ℕ) (e : Neighbor) : Bool := now - e.lastSeenMs < neighborTimeoutMs

/-- `Neighbors::is_alive`. -/
def isAlive (t : Neighbors) (nodeId : UInt16) (now : ℕ) : Bool :=
  t.entries.any fun e => e.nodeId = nodeId && isFresh now e

/-- `Neighbors::alive`. -/
def alive (t : Neighbors) (now : ℕ) : ℕ := (t.entries.filter (isFresh now)).length

/-- `Neighbors::rssi`. -/
def rssi (t : Neighbors) (nodeId : UInt16) : Option ℤ :=
  (t.entries.find? fun e => e.nodeId = nodeId).map Neighbor.rssiDbm

/-- The table after what was heard. -/
def hears (past : List Neighbor) : Neighbors := past.foldl heard new

/-! ### One frame -/

variable {t : Neighbors} {e x : Neighbor} {past : List Neighbor} {now : ℕ} {nodeId : UInt16}

/-- What comes of setting a cell that holds an entry. -/
theorem exists_reduceOption_set {cells : List (Option Neighbor)} {i : ℕ} {old : Neighbor}
    (h : cells[i]? = some (some old)) (e : Neighbor) :
    ∃ l₁ l₂, cells.reduceOption = l₁ ++ old :: l₂ ∧
      (cells.set i (some e)).reduceOption = l₁ ++ e :: l₂ := by
  induction cells generalizing i with
  | nil => cases h
  | cons c cells ih =>
    cases i with
    | zero =>
      obtain rfl : c = some old := by simpa using h
      exact ⟨[], cells.reduceOption, by simp, by simp⟩
    | succ i =>
      obtain ⟨l₁, l₂, hold, hnew⟩ := ih (by simpa using h)
      cases c with
      | none => exact ⟨l₁, l₂, by simpa using hold, by simpa using hnew⟩
      | some b => exact ⟨b :: l₁, l₂, by simp [hold], by simp [hnew]⟩

theorem mem_occupied {cells : List (Option Neighbor)} {old : Neighbor} {i : ℕ} :
    (old, i) ∈ cells.zipIdx.filterMap (fun x => x.1.map (·, x.2)) ↔
      cells[i]? = some (some old) := by
  rw [List.mem_filterMap]
  constructor
  · rintro ⟨⟨c, j⟩, hmem, hmap⟩
    obtain ⟨b, rfl, heq⟩ := Option.map_eq_some_iff.mp hmap
    cases heq
    exact List.mem_zipIdx_iff_getElem?.mp hmem
  · intro h
    exact ⟨(some old, i), List.mem_zipIdx_iff_getElem?.mpr h, rfl⟩

/-- What is said of a table in which another entry stands where one stood. -/
theorem nodup_replaced {l₁ l₂ : List Neighbor} {old e : Neighbor}
    (h : ((l₁ ++ old :: l₂).map Neighbor.nodeId).Nodup)
    (he : ∀ x ∈ l₁ ++ old :: l₂, x.nodeId ≠ e.nodeId) :
    ((l₁ ++ e :: l₂).map Neighbor.nodeId).Nodup := by
  have hperm : ∀ x : Neighbor, (l₁ ++ x :: l₂).Perm (x :: (l₁ ++ l₂)) := fun x => List.perm_middle
  rw [((hperm old).map _).nodup_iff, List.map_cons, List.nodup_cons] at h
  rw [((hperm e).map _).nodup_iff, List.map_cons, List.nodup_cons]
  refine ⟨fun hmem => ?_, h.2⟩
  obtain ⟨x, hx, hid⟩ := List.mem_map.mp hmem
  exact he x ((hperm old).mem_iff.mpr (List.mem_cons_of_mem _ hx)) hid

/-- **What a frame does to the table**: its sender has an entry with it, and nobody else loses one,
unless the table is full and that entry was silent longest. -/
theorem heard_cases (hkeys : Slots.KeysNodup Neighbor.nodeId t) (e : Neighbor) :
    Slots.KeysNodup Neighbor.nodeId (t.heard e) ∧
      t.entries.length ≤ (t.heard e).entries.length ∧
      ((∀ x, x ∈ (t.heard e).entries ↔ x = e ∨ x ∈ t.entries ∧ x.nodeId ≠ e.nodeId) ∨
        t.entries.length = maxNeighbors ∧ (∀ x ∈ t.entries, x.nodeId ≠ e.nodeId) ∧
          ∃ old ∈ t.entries, (∀ x ∈ t.entries, old.lastSeenMs ≤ x.lastSeenMs) ∧
            ∀ x, x ∈ (t.heard e).entries ↔ x = e ∨ x ∈ t.entries ∧ x ≠ old) := by
  rw [heard]
  cases hlookup : t.lookup Neighbor.nodeId e.nodeId with
  | some b =>
    refine ⟨hkeys.updateKey ?_, ?_, .inl fun x => ?_⟩
    · intro old new hnew
      cases hnew
      rfl
    · obtain ⟨l₁, l₂, hold, -, hnew⟩ := Slots.entries_updateFirst hlookup
      rw [Slots.updateKey, hnew, hold]
      simp
    · rw [Slots.mem_entries_updateKey hkeys, or_comm]
      refine or_congr_left ?_
      obtain ⟨hb, hid⟩ := (Slots.lookup_eq_some_iff hkeys).mp hlookup
      constructor
      · rintro ⟨old, -, hold, hnew⟩
        cases hnew
        rw [hold]
      · rintro rfl
        exact ⟨b, hb, hid, by rw [hid]⟩
  | none =>
    have hnew := Slots.lookup_eq_none_iff.mp hlookup
    cases hfill : t.fill e with
    | some t' =>
      refine ⟨hkeys.fill hlookup hfill, ?_, .inl fun x => ?_⟩
      · rw [(Slots.perm_entries_fill hfill).length_eq]
        exact Nat.le_succ _
      rw [Slots.mem_entries_fill hfill]
      exact or_congr_right ⟨fun hx => ⟨hx, hnew x hx⟩, And.left⟩
    | none =>
      have hfull := Slots.fill_eq_none_iff.mp hfill
      simp only
      cases hstalest : t.stalest with
      | none =>
        rw [stalest, List.argmin_eq_none] at hstalest
        obtain ⟨x, hx⟩ := List.exists_mem_of_length_pos (hfull ▸ (by decide : 0 < maxNeighbors))
        obtain ⟨i, hi⟩ := List.mem_iff_getElem?.mp (List.reduceOption_mem_iff.mp hx)
        have hmem := mem_occupied.mpr hi
        rw [hstalest] at hmem
        exact absurd hmem List.not_mem_nil
      | some old =>
        obtain ⟨old, i⟩ := old
        have hcell := mem_occupied.mp (List.argmin_mem hstalest)
        obtain ⟨l₁, l₂, hold, hset⟩ := exists_reduceOption_set hcell e
        have hold' : t.entries = l₁ ++ old :: l₂ := hold
        have hold_mem : old ∈ t.entries := by rw [hold']; simp
        have hnodup : (l₁ ++ old :: l₂).Nodup := hold' ▸ List.Nodup.of_map _ hkeys
        refine ⟨?_, ?_, .inr ⟨hfull, hnew, old, hold_mem, fun x hx => ?_, fun x => ?_⟩⟩
        · rw [Slots.KeysNodup, Slots.entries, hset]
          exact nodup_replaced (hold' ▸ hkeys) (hold' ▸ hnew)
        · rw [Slots.entries, Slots.entries, hset, hold]
          simp
        · obtain ⟨j, hj⟩ := List.mem_iff_getElem?.mp (List.reduceOption_mem_iff.mp hx)
          exact List.le_of_mem_argmin (f := fun x : Neighbor × ℕ => x.1.lastSeenMs)
            (mem_occupied.mpr hj) hstalest
        · rw [Slots.entries, hset, hold']
          have hnot := (List.nodup_middle.mp hnodup).notMem
          simp only [List.mem_append, List.mem_cons] at hnot ⊢
          constructor
          · rintro (hx | rfl | hx)
            · exact .inr ⟨.inl hx, by rintro rfl; exact hnot (.inl hx)⟩
            · exact .inl rfl
            · exact .inr ⟨.inr (.inr hx), by rintro rfl; exact hnot (.inr hx)⟩
          · rintro (rfl | ⟨hx | rfl | hx, hne⟩)
            · exact .inr (.inl rfl)
            · exact .inl hx
            · exact absurd rfl hne
            · exact .inr (.inr hx)

/-! ### Over any number of frames -/

theorem hears_concat (past : List Neighbor) (e : Neighbor) :
    hears (past ++ [e]) = (hears past).heard e := List.foldl_append

/-- The latest of what was heard of its sender. -/
def Latest (past : List Neighbor) (x : Neighbor) : Prop :=
  ∃ before after, past = before ++ x :: after ∧ ∀ y ∈ after, y.nodeId ≠ x.nodeId

/-- The others that were heard at a time or later. -/
def othersSince (past : List Neighbor) (nodeId : UInt16) (start : ℕ) : List UInt16 :=
  ((past.filter fun y => y.nodeId ≠ nodeId && start ≤ y.lastSeenMs).map Neighbor.nodeId).dedup

theorem mem_othersSince {nodeId other : UInt16} {start : ℕ} :
    other ∈ othersSince past nodeId start ↔
      ∃ y ∈ past, y.nodeId = other ∧ y.nodeId ≠ nodeId ∧ start ≤ y.lastSeenMs := by
  simp only [othersSince, List.mem_dedup, List.mem_map, List.mem_filter, Bool.and_eq_true,
    decide_eq_true_eq]
  constructor
  · rintro ⟨y, ⟨hy, hne, hstart⟩, rfl⟩
    exact ⟨y, hy, rfl, hne, hstart⟩
  · rintro ⟨y, hy, rfl, hne, hstart⟩
    exact ⟨y, ⟨hy, hne, hstart⟩, rfl⟩

theorem le_length_othersSince {others : List UInt16} (hnodup : others.Nodup) {nodeId : UInt16}
    {start : ℕ} (h : ∀ other ∈ others,
      ∃ y ∈ past, y.nodeId = other ∧ y.nodeId ≠ nodeId ∧ start ≤ y.lastSeenMs) :
    others.length ≤ (othersSince past nodeId start).length :=
  (List.subperm_of_subset hnodup fun other hother => mem_othersSince.mpr (h other hother)).length_le

theorem latest_concat : Latest (past ++ [e]) x ↔ x = e ∨ Latest past x ∧ x.nodeId ≠ e.nodeId := by
  constructor
  · rintro ⟨before, after, hpast, hafter⟩
    rcases List.eq_nil_or_concat after with rfl | ⟨after, y, rfl⟩
    · exact .inl (List.singleton_inj.mp (List.append_inj' hpast rfl).2).symm
    · rw [List.concat_eq_append, ← List.cons_append, ← List.append_assoc] at hpast
      obtain ⟨hpast', hy⟩ := List.append_inj' hpast rfl
      obtain rfl := List.singleton_inj.mp hy
      refine .inr ⟨⟨before, after, hpast', fun y hy => hafter y (by simp [hy])⟩, ?_⟩
      exact fun hid => hafter e (by simp) hid.symm
  · rintro (rfl | ⟨⟨before, after, rfl, hafter⟩, hne⟩)
    · exact ⟨past, [], rfl, fun _ hy => absurd hy List.not_mem_nil⟩
    · refine ⟨before, after ++ [e], by simp, fun y hy => ?_⟩
      obtain hy | hy := List.mem_append.mp hy
      · exact hafter y hy
      · rw [List.mem_singleton.mp hy]
        exact hne.symm

theorem Latest.mem (h : Latest past x) : x ∈ past := by
  obtain ⟨before, after, rfl, -⟩ := h
  simp

theorem Latest.unique {y : Neighbor} (h : Latest past x) (h' : Latest past y)
    (hid : x.nodeId = y.nodeId) : x = y := by
  induction past using List.reverseRecOn with
  | nil => exact absurd h.mem List.not_mem_nil
  | append_singleton past e ih =>
    obtain rfl | ⟨h, hne⟩ := latest_concat.mp h
    · obtain rfl | ⟨-, hne'⟩ := latest_concat.mp h'
      · rfl
      · exact absurd hid.symm hne'
    · obtain rfl | ⟨h', -⟩ := latest_concat.mp h'
      · exact absurd hid hne
      · exact ih h h'

theorem exists_latest (hclock : (past.map Neighbor.lastSeenMs).Pairwise (· ≤ ·)) {y : Neighbor}
    (hy : y ∈ past) :
    ∃ x, Latest past x ∧ x.nodeId = y.nodeId ∧ y.lastSeenMs ≤ x.lastSeenMs := by
  induction past using List.reverseRecOn with
  | nil => exact absurd hy List.not_mem_nil
  | append_singleton past e ih =>
    rw [List.map_append, List.pairwise_append] at hclock
    by_cases hid : y.nodeId = e.nodeId
    · refine ⟨e, latest_concat.mpr (.inl rfl), hid.symm, ?_⟩
      obtain hy | hy := List.mem_append.mp hy
      · exact hclock.2.2 _ (List.mem_map_of_mem hy) _ (by simp)
      · rw [List.mem_singleton.mp hy]
    · obtain hy | hy := List.mem_append.mp hy
      · obtain ⟨x, hx, hxid, hle⟩ := ih hclock.1 hy
        exact ⟨x, latest_concat.mpr (.inr ⟨hx, by rwa [hxid]⟩), hxid, hle⟩
      · exact absurd (congrArg Neighbor.nodeId (List.mem_singleton.mp hy)) hid

/-- What the table is after what was heard: who is not in it is no later than all who are. -/
structure Recalls (past : List Neighbor) (t : Neighbors) : Prop where
  keys : Slots.KeysNodup Neighbor.nodeId t
  latest : ∀ x ∈ t.entries, Latest past x
  kept : ∀ x, Latest past x → x ∈ t.entries ∨
    t.entries.length = maxNeighbors ∧ ∀ y ∈ t.entries, x.lastSeenMs ≤ y.lastSeenMs

theorem recalls_heard (h : Recalls past t) (e : Neighbor)
    (hclock : ∀ y ∈ past, y.lastSeenMs ≤ e.lastSeenMs) : Recalls (past ++ [e]) (t.heard e) := by
  obtain ⟨hkeys, hlength, hcases⟩ := heard_cases h.keys e
  have hfull (hold : t.entries.length = maxNeighbors) :
      (t.heard e).entries.length = maxNeighbors :=
    (Slots.length_entries_le _).antisymm (hold.ge.trans hlength)
  have hsubset : ∀ x ∈ (t.heard e).entries, x = e ∨ x ∈ t.entries ∧ x.nodeId ≠ e.nodeId := by
    intro x hx
    obtain hplain | ⟨-, hnew, old, -, -, hmem⟩ := hcases
    · exact (hplain x).mp hx
    · exact ((hmem x).mp hx).imp_right fun hx => ⟨hx.1, hnew x hx.1⟩
  refine ⟨hkeys, fun x hx => ?_, fun x hlatest => ?_⟩
  · rw [latest_concat]
    exact (hsubset x hx).imp_right fun hx => ⟨h.latest x hx.1, hx.2⟩
  obtain rfl | ⟨hlatest, hne⟩ := latest_concat.mp hlatest
  · obtain hplain | ⟨-, -, old, -, -, hmem⟩ := hcases
    · exact .inl ((hplain x).mpr (.inl rfl))
    · exact .inl ((hmem x).mpr (.inl rfl))
  have hpast := hlatest.mem
  have hlater (hold : ∀ y ∈ t.entries, x.lastSeenMs ≤ y.lastSeenMs) :
      ∀ y ∈ (t.heard e).entries, x.lastSeenMs ≤ y.lastSeenMs := by
    intro y hy
    obtain rfl | hy := hsubset y hy
    · exact hclock x hpast
    · exact hold y hy.1
  obtain hx | ⟨hold, hlast⟩ := h.kept x hlatest
  · obtain hplain | ⟨hold, -, old, -, hstalest, hmem⟩ := hcases
    · exact .inl ((hplain x).mpr (.inr ⟨hx, hne⟩))
    · rcases eq_or_ne x old with rfl | hxold
      · exact .inr ⟨hfull hold, hlater hstalest⟩
      · exact .inl ((hmem x).mpr (.inr ⟨hx, hxold⟩))
  · exact .inr ⟨hfull hold, hlater hlast⟩

theorem recalls_hears (past : List Neighbor)
    (hclock : (past.map Neighbor.lastSeenMs).Pairwise (· ≤ ·)) : Recalls past (hears past) := by
  induction past using List.reverseRecOn with
  | nil =>
    refine ⟨Slots.keysNodup_empty, fun x hx => ?_, fun x hx => absurd hx.mem List.not_mem_nil⟩
    rw [hears, List.foldl_nil, new, Slots.entries_empty] at hx
    exact absurd hx List.not_mem_nil
  | append_singleton past e ih =>
    rw [List.map_append, List.pairwise_append] at hclock
    rw [hears_concat]
    refine recalls_heard (ih hclock.1) e fun y hy => ?_
    exact hclock.2.2 _ (List.mem_map_of_mem hy) _ (by simp)

/-- The strength of a sender is that of its latest frame. -/
theorem exists_of_rssi (h : Recalls past t) {r : ℤ} (hr : t.rssi nodeId = some r) :
    ∃ x, Latest past x ∧ x.nodeId = nodeId ∧ x.rssiDbm = r := by
  obtain ⟨x, hfind, rfl⟩ := Option.map_eq_some_iff.mp hr
  exact ⟨x, h.latest x (List.mem_of_find?_eq_some hfind),
    of_decide_eq_true (List.find?_some (p := fun e : Neighbor => decide (e.nodeId = nodeId)) hfind),
    rfl⟩

theorem exists_of_isAlive (h : t.isAlive nodeId now = true) :
    ∃ x ∈ t.entries, x.nodeId = nodeId ∧ now - x.lastSeenMs < neighborTimeoutMs := by
  obtain ⟨x, hx, hfresh⟩ := List.any_eq_true.mp h
  rw [Bool.and_eq_true, decide_eq_true_eq, isFresh, decide_eq_true_eq] at hfresh
  exact ⟨x, hx, hfresh⟩

/-- **Who is taken to be there** was heard less than thirty seconds ago; and who was is taken to be
there, unless eight others have been heard since. -/
theorem isAlive_when (past : List Neighbor)
    (hclock : (past.map Neighbor.lastSeenMs).Pairwise (· ≤ ·)) (nodeId : UInt16) (now : ℕ) :
    ((hears past).isAlive nodeId now = true → ∃ x, Latest past x ∧ x.nodeId = nodeId ∧
      now - x.lastSeenMs < neighborTimeoutMs) ∧
      ∀ x, Latest past x → x.nodeId = nodeId → now - x.lastSeenMs < neighborTimeoutMs →
        (hears past).isAlive nodeId now = true ∨
          maxNeighbors ≤ (othersSince past nodeId x.lastSeenMs).length := by
  have hrecalls := recalls_hears past hclock
  constructor
  · intro h
    obtain ⟨x, hx, hid, hfresh⟩ := exists_of_isAlive h
    exact ⟨x, hrecalls.latest x hx, hid, hfresh⟩
  · rintro x hlatest rfl hfresh
    by_cases hx : x ∈ (hears past).entries
    · refine .inl (List.any_eq_true.mpr ⟨x, hx, ?_⟩)
      rw [Bool.and_eq_true, decide_eq_true_eq, isFresh, decide_eq_true_eq]
      exact ⟨rfl, hfresh⟩
    · obtain ⟨hfull, hlast⟩ := (hrecalls.kept x hlatest).resolve_left hx
      refine .inr ?_
      rw [← hfull, ← List.length_map Neighbor.nodeId]
      refine le_length_othersSince hrecalls.keys fun other hother => ?_
      obtain ⟨y, hy, rfl⟩ := List.mem_map.mp hother
      have hlatest' := hrecalls.latest y hy
      refine ⟨y, hlatest'.mem, rfl, fun hid => hx ?_, hlast y hy⟩
      rwa [hlatest.unique hlatest' hid.symm]

/-- Two senders, the first heard twice. -/
def twoHeard : List Neighbor := [⟨1, 0, -40⟩, ⟨2, 10, -50⟩, ⟨1, 20, -45⟩]

theorem isAlive_when_two :
    ((hears twoHeard).isAlive 2 100 = true → ∃ x, Latest twoHeard x ∧ x.nodeId = 2 ∧
      100 - x.lastSeenMs < neighborTimeoutMs) ∧
      ∀ x, Latest twoHeard x → x.nodeId = 2 → 100 - x.lastSeenMs < neighborTimeoutMs →
        (hears twoHeard).isAlive 2 100 = true ∨
          maxNeighbors ≤ (othersSince twoHeard 2 x.lastSeenMs).length :=
  isAlive_when twoHeard (by decide) 2 100

/-- The senders that were heard less than thirty seconds ago. -/
def onAir (past : List Neighbor) (now : ℕ) : List UInt16 :=
  ((past.filter (isFresh now)).map Neighbor.nodeId).dedup

theorem mem_onAir {nodeId : UInt16} :
    nodeId ∈ onAir past now ↔ ∃ y ∈ past, isFresh now y = true ∧ y.nodeId = nodeId := by
  simp only [onAir, List.mem_dedup, List.mem_map, List.mem_filter, and_assoc]

theorem isFresh_of_le {y : Neighbor} (h : y.lastSeenMs ≤ x.lastSeenMs)
    (hy : isFresh now y = true) : isFresh now x = true := by
  rw [isFresh, decide_eq_true_eq] at hy ⊢
  exact (Nat.sub_le_sub_left h now).trans_lt hy

/-- **How many are counted**: as many as are on the air, up to eight. -/
theorem alive_eq (past : List Neighbor)
    (hclock : (past.map Neighbor.lastSeenMs).Pairwise (· ≤ ·)) (now : ℕ) :
    (hears past).alive now = min maxNeighbors (onAir past now).length := by
  have hrecalls := recalls_hears past hclock
  have hnodup : (((hears past).entries.filter (isFresh now)).map Neighbor.nodeId).Nodup :=
    List.Nodup.sublist (List.filter_sublist.map _) hrecalls.keys
  have hle : (hears past).alive now ≤ (onAir past now).length := by
    rw [alive, ← List.length_map Neighbor.nodeId]
    refine (List.subperm_of_subset hnodup fun id hid => ?_).length_le
    obtain ⟨x, hx, rfl⟩ := List.mem_map.mp hid
    obtain ⟨hx, hfresh⟩ := List.mem_filter.mp hx
    exact mem_onAir.mpr ⟨x, (hrecalls.latest x hx).mem, hfresh, rfl⟩
  have hmax : (hears past).alive now ≤ maxNeighbors :=
    (List.length_filter_le _ _).trans (Slots.length_entries_le _)
  refine (le_min hmax hle).antisymm ?_
  by_cases hall : ∀ x, Latest past x → isFresh now x = true → x ∈ (hears past).entries
  · refine (min_le_right _ _).trans ?_
    rw [alive, ← List.length_map Neighbor.nodeId]
    refine (List.subperm_of_subset (List.nodup_dedup _) fun id hid => ?_).length_le
    obtain ⟨y, hy, hfresh, rfl⟩ := mem_onAir.mp hid
    obtain ⟨x, hlatest, hid, hle⟩ := exists_latest hclock hy
    have hfresh' := isFresh_of_le hle hfresh
    exact List.mem_map.mpr ⟨x, List.mem_filter.mpr ⟨hall x hlatest hfresh', hfresh'⟩, hid⟩
  · -- somebody on the air was forgotten, so that all who are not are on the air
    push Not at hall
    obtain ⟨x, hlatest, hfresh, hx⟩ := hall
    obtain ⟨hfull, hlast⟩ := (hrecalls.kept x hlatest).resolve_left hx
    refine (min_le_left _ _).trans ?_
    rw [alive, List.filter_eq_self.mpr fun y hy => isFresh_of_le (hlast y hy) hfresh, hfull]

theorem alive_eq_two :
    (hears twoHeard).alive 100 = min maxNeighbors (onAir twoHeard 100).length :=
  alive_eq twoHeard (by decide) 100


end Neighbors

end ApexOS.Brainstem

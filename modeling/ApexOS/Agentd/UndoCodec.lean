import ApexOS.Agentd.Rollback
import Mathlib.Data.List.DropRight

/-!
# The undo record as text

`undo_step_line` writes a summary and three marked lines, `parse_rollback_record_from_text` finds
each marker wherever it first stands (`agentd/crates/agentd/src/evolution.rs`). The text before a
marked line is free: the summary, the JSON of the undo with whatever soul is in it, the owner. So
what is read under a marker is what stands after its first place in these texts, and what was
written only if it stands in none of them.

A marker has no line break in it and cannot begin in the writer's own words, which is what makes the
search of the whole text a search of its parts.

## Main definitions

* `Unmistakable`: no marker is found too early, or what is found says the same

## Main results

* `markerLine_line`: the first place in two parts of a text
* `roundTrips_iff`: the record is read back exactly if it is unmistakable
-/

namespace ApexOS.Agentd.Rollback

open Evolution
open ApexOS.Fabrica (trim)

/-! ### Searching a text by its lines -/

section Search

variable {marker x y : List Char}

theorem afterMarker_cons_of_not_prefix {c : Char} (h : ¬ marker <+: c :: x) :
    afterMarker marker (c :: x) = afterMarker marker x := by
  rw [afterMarker, if_neg fun hp => h (List.isPrefixOf_iff_prefix.mp hp)]

theorem afterMarker_append_self (hm : marker ≠ []) : afterMarker marker (marker ++ x) = some x := by
  cases marker with
  | nil => exact absurd rfl hm
  | cons c marker =>
    rw [List.cons_append, afterMarker, if_pos (by simp), ← List.cons_append, List.drop_left]

/-- A marker does not go over a line break: it is found in what is before, or in what is after. -/
theorem afterMarker_line (hm : marker ≠ []) (hline : '\n' ∉ marker) :
    afterMarker marker (x ++ '\n' :: y)
      = ((afterMarker marker x).map (· ++ '\n' :: y)).or (afterMarker marker y) := by
  induction x with
  | nil =>
    have hnot : ¬ marker <+: '\n' :: y := by
      rintro hp
      cases marker with
      | nil => exact hm rfl
      | cons c marker =>
        obtain ⟨rfl, -⟩ := List.cons_prefix_cons.mp hp
        exact hline List.mem_cons_self
    have hnil : afterMarker marker [] = none := by
      rw [afterMarker, if_neg (by simpa using hm)]
    rw [List.nil_append, afterMarker_cons_of_not_prefix hnot, hnil, Option.map_none, Option.none_or]
  | cons c x ih =>
    by_cases hp : marker <+: c :: x
    · obtain ⟨rest, hrest⟩ := hp
      rw [← hrest, List.append_assoc, afterMarker_append_self hm, afterMarker_append_self hm]
      rfl
    · have hnot : ¬ marker <+: c :: (x ++ '\n' :: y) := by
        intro hp'
        rcases List.prefix_or_prefix_of_prefix hp' (List.prefix_append (c :: x) ('\n' :: y)) with
          h | ⟨t, rfl⟩
        · exact hp h
        · -- the marker would go on with the line break
          cases (List.prefix_append_right_inj (c :: x)).mp hp' with
          | intro u hu =>
            cases t with
            | nil => exact hp (by rw [List.append_nil])
            | cons d t =>
              obtain rfl : d = '\n' := (List.cons.inj hu).1
              exact hline (by simp)
      rw [List.cons_append, afterMarker_cons_of_not_prefix hnot, ih,
        afterMarker_cons_of_not_prefix hp]

/-- What stands on the rest of a line. -/
theorem takeWhile_line (x y : List Char) :
    (x ++ '\n' :: y).takeWhile (· ≠ '\n') = x.takeWhile (· ≠ '\n') := by
  induction x with
  | nil => simp
  | cons c x ih =>
    rw [List.cons_append, List.takeWhile_cons, List.takeWhile_cons, ih]

/-- **The first place of a marker** in two parts of a text that a line break separates. -/
theorem markerLine_line {marker : String} (hm : marker.toList ≠ []) (hline : '\n' ∉ marker.toList)
    (x y : String) :
    markerLine (x ++ "\n" ++ y) marker = (markerLine x marker).or (markerLine y marker) := by
  have hchars : (x ++ "\n" ++ y).toList = x.toList ++ '\n' :: y.toList := by simp
  rw [markerLine, hchars, afterMarker_line hm hline, markerLine, markerLine]
  cases afterMarker marker.toList x.toList with
  | none => rfl
  | some rest =>
    rw [Option.map_some, Option.some_or, Option.map_some, takeWhile_line]
    rfl

/-- No place in `w` can be the beginning of the marker, whatever follows `w`. -/
def foreign (marker : List Char) : List Char → Bool
  | [] => true
  | c :: w => !(c :: w).isPrefixOf marker && !marker.isPrefixOf (c :: w) && foreign marker w

theorem afterMarker_foreign {w : List Char} (h : foreign marker w = true) :
    afterMarker marker (w ++ x) = afterMarker marker x := by
  induction w with
  | nil => rfl
  | cons c w ih =>
    rw [foreign, Bool.and_eq_true, Bool.and_eq_true, Bool.not_eq_true', Bool.not_eq_true'] at h
    obtain ⟨⟨hw, hm⟩, hrest⟩ := h
    have hnot : ¬ marker <+: c :: (w ++ x) := by
      intro hp
      rcases List.prefix_or_prefix_of_prefix hp (List.prefix_append (c :: w) x) with hp | hp
      · rw [List.isPrefixOf_iff_prefix.mpr hp] at hm
        cases hm
      · rw [List.isPrefixOf_iff_prefix.mpr hp] at hw
        cases hw
    rw [List.cons_append, afterMarker_cons_of_not_prefix hnot, ih hrest]

theorem markerLine_foreign {marker w : String} (h : foreign marker.toList w.toList = true)
    (y : String) : markerLine (w ++ y) marker = markerLine y marker := by
  rw [markerLine, String.toList_append, afterMarker_foreign h, markerLine]

end Search

/-! ### Single lines -/

section Lines

variable {x y : List Char}

/-- A line with nothing to trim. -/
def OneLine (s : String) : Prop := '\n' ∉ s.toList ∧ trim s = s

instance (s : String) : Decidable (OneLine s) :=
  inferInstanceAs (Decidable ('\n' ∉ s.toList ∧ trim s = s))

theorem markerLine_self {marker : String} (hm : marker.toList ≠ []) {line : String}
    (hy : OneLine line) : markerLine (marker ++ line) marker = some line := by
  have hwhole : line.toList.takeWhile (· ≠ '\n') = line.toList :=
    List.takeWhile_eq_self_iff.mpr fun c hc => by
      simpa using fun heq : c = '\n' => hy.1 (heq ▸ hc)
  rw [markerLine, String.toList_append, afterMarker_append_self hm, Option.map_some, hwhole,
    String.ofList_toList, hy.2]

theorem mem_of_mem_trim {c : Char} {s : String} (h : c ∈ (trim s).toList) : c ∈ s.toList := by
  rw [trim, String.toList_ofList, List.mem_reverse] at h
  have h := (List.dropWhile_sublist _).subset h
  exact (List.dropWhile_sublist _).subset (List.mem_reverse.mp h)

/-- A prefix of what has nothing to drop in front has nothing to drop in front. -/
theorem dropWhile_eq_self_of_prefix {p : Char → Bool} (h : x <+: y) (hy : y.dropWhile p = y) :
    x.dropWhile p = x := by
  cases x with
  | nil => rfl
  | cons c x =>
    obtain ⟨z, rfl⟩ := h
    refine List.dropWhile_cons_of_neg fun hc => ?_
    rw [List.cons_append, List.dropWhile_cons_of_pos hc] at hy
    have hle := (List.dropWhile_sublist p (l := x ++ z)).length_le
    rw [hy, List.length_cons] at hle
    omega

theorem trim_eq (s : String) :
    trim s = String.ofList ((s.toList.dropWhile isWhitespace).rdropWhile isWhitespace) := rfl

theorem trim_trim (s : String) : trim (trim s) = trim s := by
  have hfront := dropWhile_eq_self_of_prefix
    (List.rdropWhile_prefix isWhitespace (s.toList.dropWhile isWhitespace))
    (List.dropWhile_idempotent isWhitespace s.toList)
  rw [trim_eq (trim s), trim_eq s, String.toList_ofList, hfront, List.rdropWhile_idempotent]

theorem oneLine_firstLine (s : String) : OneLine (firstLine s) := by
  refine ⟨fun h => ?_, trim_trim _⟩
  have h := mem_of_mem_trim h
  rw [firstOfLines, String.toList_ofList] at h
  have hmem : '\n' ∈ s.toList.takeWhile (· ≠ '\n') := by
    split at h
    · exact List.mem_of_mem_dropLast h
    · exact h
  simpa using List.all_eq_true.mp List.all_takeWhile _ hmem

end Lines

/-! ### Reading a record back -/

section Record

variable (serde : Serde) (summary : String) (rec : RollbackRecord)

/-- What is written of a record: of the owner and the target, the first lines. -/
def RollbackRecord.written (rec : RollbackRecord) : RollbackRecord where
  undo := rec.undo
  owner := firstLine rec.owner
  target := firstLine rec.target

/-- Wherever a marker stands in what is written before its line, what follows it there is what its
line says. -/
structure Unmistakable : Prop where
  snapshot : ∀ raw ∈ markerLine summary "undo_snapshot: ", serde.fromStr raw = some rec.undo
  owner : ∀ line ∈ (markerLine summary "undo_owner: ").or
      (markerLine (serde.toString rec.undo) "undo_owner: "), line = firstLine rec.owner
  target : ∀ line ∈ ((markerLine summary "undo_target: ").or
      (markerLine (serde.toString rec.undo) "undo_target: ")).or
        (markerLine (firstLine rec.owner) "undo_target: "), line = firstLine rec.target

/-- The record is written as a summary and three marked lines. -/
theorem undoStepLine_eq : undoStepLine serde summary rec
    = ("evolution apply: " ++ summary) ++ "\n" ++
      (("undo_snapshot: " ++ serde.toString rec.undo) ++ "\n" ++
        (("undo_owner: " ++ firstLine rec.owner) ++ "\n" ++
          ("undo_target: " ++ firstLine rec.target))) := by
  have hsnapshot : "\nundo_snapshot: ".toList = "\n".toList ++ "undo_snapshot: ".toList := by decide
  have howner : "\nundo_owner: ".toList = "\n".toList ++ "undo_owner: ".toList := by decide
  have htarget : "\nundo_target: ".toList = "\n".toList ++ "undo_target: ".toList := by decide
  delta undoStepLine
  refine String.toList_inj.mp ?_
  simp only [String.toList_append, List.append_assoc, hsnapshot, howner, htarget]

variable {serde} {summary} {rec}

theorem markerLine_snapshot (hjson : OneLine (serde.toString rec.undo)) :
    markerLine (undoStepLine serde summary rec) "undo_snapshot: "
      = (markerLine summary "undo_snapshot: ").or (some (serde.toString rec.undo)) := by
  rw [undoStepLine_eq, markerLine_line (by decide) (by decide), markerLine_foreign (by decide),
    markerLine_line (by decide) (by decide), markerLine_self (by decide) hjson, Option.some_or]

theorem markerLine_owner :
    markerLine (undoStepLine serde summary rec) "undo_owner: "
      = ((markerLine summary "undo_owner: ").or
        (markerLine (serde.toString rec.undo) "undo_owner: ")).or (some (firstLine rec.owner)) := by
  rw [undoStepLine_eq, markerLine_line (by decide) (by decide), markerLine_foreign (by decide),
    markerLine_line (by decide) (by decide), markerLine_foreign (by decide),
    markerLine_line (by decide) (by decide), markerLine_self (by decide) (oneLine_firstLine _),
    Option.some_or, Option.or_assoc]

theorem markerLine_target :
    markerLine (undoStepLine serde summary rec) "undo_target: "
      = (((markerLine summary "undo_target: ").or
        (markerLine (serde.toString rec.undo) "undo_target: ")).or
          (markerLine (firstLine rec.owner) "undo_target: ")).or
            (some (firstLine rec.target)) := by
  rw [undoStepLine_eq, markerLine_line (by decide) (by decide), markerLine_foreign (by decide),
    markerLine_line (by decide) (by decide), markerLine_foreign (by decide),
    markerLine_line (by decide) (by decide), markerLine_foreign (by decide),
    markerLine_self (by decide) (oneLine_firstLine _), Option.or_assoc, Option.or_assoc]

theorem getD_or_some {o : Option String} {line default : String} :
    ((o.or (some line)).getD default = line) ↔ ∀ l ∈ o, l = line := by
  cases o with
  | none => simp
  | some l => simp

/-- What is read is a line of its own. -/
theorem oneLine_of_markerLine {text marker line : String} (h : line ∈ markerLine text marker) :
    OneLine line := by
  obtain ⟨rest, -, rfl⟩ := Option.map_eq_some_iff.mp h
  refine ⟨fun hmem => ?_, trim_trim _⟩
  have hmem := mem_of_mem_trim hmem
  rw [String.toList_ofList] at hmem
  simpa using List.all_eq_true.mp List.all_takeWhile _ hmem

theorem firstLine_of_oneLine {line : String} (h : OneLine line) : firstLine line = line := by
  have hwhole : line.toList.takeWhile (· ≠ '\n') = line.toList :=
    List.takeWhile_eq_self_iff.mpr fun c hc => by
      simpa using fun heq : c = '\n' => h.1 (heq ▸ hc)
  rw [firstLine, firstOfLines, hwhole]
  simpa using h.2

theorem parse_eq (text : String) : parseRollbackRecordFromText serde text
    = ((markerLine text "undo_snapshot: ").bind serde.fromStr).map fun undo =>
      ⟨undo, (markerLine text "undo_owner: ").getD "",
        (markerLine text "undo_target: ").getD globalSoulTarget⟩ := by
  rw [parseRollbackRecordFromText]
  cases markerLine text "undo_snapshot: " with
  | none => rfl
  | some raw => cases hraw : serde.fromStr raw <;> simp [hraw]

/-- What is read back of a record is single lines. -/
theorem written_of_parse {text : String}
    (h : parseRollbackRecordFromText serde text = some rec) : rec.written = rec := by
  rw [parse_eq] at h
  obtain ⟨undo, -, rfl⟩ := Option.map_eq_some_iff.mp h
  have howner : OneLine ((markerLine text "undo_owner: ").getD "") := by
    cases hline : markerLine text "undo_owner: " with
    | none => exact ⟨by decide, by decide⟩
    | some line => exact oneLine_of_markerLine hline
  have htarget : OneLine ((markerLine text "undo_target: ").getD globalSoulTarget) := by
    cases hline : markerLine text "undo_target: " with
    | none => exact ⟨by decide, by decide⟩
    | some line => exact oneLine_of_markerLine hline
  rw [RollbackRecord.written, firstLine_of_oneLine howner, firstLine_of_oneLine htarget]

theorem parse_eq_written_iff (hread : serde.fromStr (serde.toString rec.undo) = some rec.undo)
    (hjson : OneLine (serde.toString rec.undo)) :
    parseRollbackRecordFromText serde (undoStepLine serde summary rec) = some rec.written ↔
      Unmistakable serde summary rec := by
  have hundo : (∀ raw ∈ markerLine summary "undo_snapshot: ", serde.fromStr raw = some rec.undo) ↔
      (markerLine (undoStepLine serde summary rec) "undo_snapshot: ").bind serde.fromStr
        = some rec.undo := by
    rw [markerLine_snapshot hjson]
    cases markerLine summary "undo_snapshot: " with
    | none => simp [hread]
    | some raw => simp
  have hlines : ((markerLine (undoStepLine serde summary rec) "undo_owner: ").getD ""
        = firstLine rec.owner ∧
      (markerLine (undoStepLine serde summary rec) "undo_target: ").getD globalSoulTarget
        = firstLine rec.target) ↔ _ :=
    and_congr (markerLine_owner ▸ getD_or_some) (markerLine_target ▸ getD_or_some)
  rw [parse_eq, Option.map_eq_some_iff]
  constructor
  · rintro ⟨undo, hmine, heq⟩
    obtain ⟨rfl, howner, htarget⟩ := RollbackRecord.mk.inj heq
    exact ⟨hundo.mpr hmine, (hlines.mp ⟨howner, htarget⟩).1, (hlines.mp ⟨howner, htarget⟩).2⟩
  · intro h
    obtain ⟨howner, htarget⟩ := hlines.mpr ⟨h.owner, h.target⟩
    exact ⟨rec.undo, hundo.mp h.snapshot, by rw [howner, htarget]; rfl⟩

/-- **The record is read back** exactly if it is unmistakable and its owner and target are single
lines; of others it is the first lines. -/
theorem roundTrips_iff (hread : serde.fromStr (serde.toString rec.undo) = some rec.undo)
    (hjson : OneLine (serde.toString rec.undo)) :
    (parseRollbackRecordFromText serde (undoStepLine serde summary rec) = some rec.written ↔
      Unmistakable serde summary rec) ∧
    (parseRollbackRecordFromText serde (undoStepLine serde summary rec) = some rec ↔
      Unmistakable serde summary rec ∧ rec.written = rec) := by
  refine ⟨parse_eq_written_iff hread hjson, fun h => ?_, fun ⟨h, hwritten⟩ => ?_⟩
  · have hwritten := written_of_parse h
    exact ⟨(parse_eq_written_iff hread hjson).mp (by rw [h, hwritten]), hwritten⟩
  · rw [(parse_eq_written_iff hread hjson).mpr h, hwritten]

end Record

/-- A guest's soul is rewritten. -/
def guestRecord (soul : String) : RollbackRecord :=
  ⟨.updateSystemPrompt soul "rollback", "GUEST-1", "souls/GUEST-1.md"⟩

theorem roundTrips_iff_guest :
    (parseRollbackRecordFromText (jsonSerde [(guestRecord "old").undo])
        (undoStepLine (jsonSerde [(guestRecord "old").undo]) "rewritten" (guestRecord "old"))
          = some (guestRecord "old").written ↔
      Unmistakable (jsonSerde [(guestRecord "old").undo]) "rewritten" (guestRecord "old")) ∧
    (parseRollbackRecordFromText (jsonSerde [(guestRecord "old").undo])
        (undoStepLine (jsonSerde [(guestRecord "old").undo]) "rewritten" (guestRecord "old"))
          = some (guestRecord "old") ↔
      Unmistakable (jsonSerde [(guestRecord "old").undo]) "rewritten" (guestRecord "old") ∧
        (guestRecord "old").written = guestRecord "old") :=
  roundTrips_iff (by decide +kernel) (by decide +kernel)

/-- The old soul speaks of the codec: what is read as the target is the end of its JSON. -/
theorem not_roundTrips : ¬ ∀ (serde : Serde) (summary : String) (rec : RollbackRecord),
    serde.fromStr (serde.toString rec.undo) = some rec.undo → OneLine (serde.toString rec.undo) →
    (rec.owner ≠ "" ∧ OneLine rec.owner) → (rec.target ≠ "" ∧ OneLine rec.target) →
      parseRollbackRecordFromText serde (undoStepLine serde summary rec) = some rec := by
  intro h
  have hrec := h (jsonSerde [(guestRecord "undo_target: souls/APEX.md").undo]) "rewritten"
    (guestRecord "undo_target: souls/APEX.md") (by decide +kernel) (by decide +kernel)
    (by decide) (by decide)
  have htarget := congrArg (Option.map RollbackRecord.target) hrec
  revert htarget
  decide +kernel

end ApexOS.Agentd.Rollback

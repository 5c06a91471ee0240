import ApexOS.Cerebro.Interleaving
import ApexOS.Lib.Run
import ApexOS.Lib.Table

/-!
# The versions of a memory

`update_memory` and `restore_version` of `cerebro-mcp/src/dispatch.rs` with `update_memory_noted`
and `log_memory_version` of `cerebro/src/storage/sqlite.rs`. A version is saved in two places: by
the store, when an update changes the content, and by `restore_version`, whatever it changes. So a
restore that changes the content saves two.

The store has one memory, and the table of versions. A version keeps the columns; the text of a list
of tags is read back, and a salience that is no number in JSON is read as one half.

## Main definitions

* `Columns`, `Columns.Lawful`: how columns are written and read
* `Row`, `State`: the memory and the versions
* `updateMemoryNoted`, `logMemoryVersion`, `step`: the calls
* `Saved`, `Undone`: what is promised of a call

## Main results

* `saved_iff`: one version is saved exactly if no restore changes the content
* `undone_of_finite`: either version that a restore saves undoes it
* `versions_exact`: both, along every run
-/

namespace ApexOS.Cerebro.Versions

open Interleaving (Prims updated visible)
open Reading (VersionRow agentScope)

/-! ### The columns -/

/-- How columns are written and read. -/
structure Columns where
  tagsText : List String → String
  readTags : String → Option (List String)
  /-- a float is a number in JSON -/
  finite : ℚ → Bool
  /-- `as f32` -/
  single : ℚ → ℚ
  rfc3339 : DateTime → String

/-- Tags are read as they are written, a float of single precision is one already, and what rounds
to a finite one is finite. -/
structure Columns.Lawful (C : Columns) : Prop where
  tags : ∀ tags, C.readTags (C.tagsText tags) = some tags
  single : ∀ x, C.single (C.single x) = C.single x
  finite : ∀ x, C.finite (C.single x) = true → C.finite x = true

/-- A row of `memories`: three of its columns as they are kept, and the others as they are read. -/
structure Row where
  tags : String
  salience : ℚ
  visibility : String
  node : MemoryNode

/-- The memory and the versions. -/
structure State where
  row : Row
  versions : Table ℤ VersionRow
  nextId : ℤ
  fresh : ∀ k, nextId ≤ k → versions.get? k = none

namespace State

/-- A version is added under the next id. -/
def save (s : State) (v : VersionRow) : State where
  row := s.row
  versions := s.versions.insert s.nextId { v with id := s.nextId }
  nextId := s.nextId + 1
  fresh k hk := by
    rw [Table.get?_insert, if_neg (by omega)]
    exact s.fresh k (by omega)

variable {s : State} {v : VersionRow}

theorem entries_save : (s.save v).versions.entries =
    s.versions.entries ++ [(s.nextId, { v with id := s.nextId })] :=
  Table.entries_insert_of_fresh (s.fresh _ (le_refl _))

theorem get?_save {k : ℤ} : (s.save v).versions.get? k =
    if k = s.nextId then some { v with id := s.nextId } else s.versions.get? k :=
  Table.get?_insert

end State

/-! ### The calls -/

section

variable (C : Columns) (P : Prims)

/-- `get_memory`; a row that cannot be read is refused like one that is not there. -/
def getMemory (row : Row) (id : MemoryId) (scope : VisibilityScope) : Option MemoryNode :=
  if id = row.node.id ∧ visible scope row.node = true then
    (C.readTags row.tags).map fun tags =>
      { row.node with
        tags
        salience := C.single row.salience }
  else none

/-- `log_memory_version`. -/
def logMemoryVersion (node : MemoryNode) (editedBy changeNote : Option String) (now : DateTime)
    (s : State) : State :=
  s.save ⟨0, node.id, node.content, C.tagsText node.tags, node.salience, node.visibility.str,
    editedBy, C.rfc3339 now, changeNote⟩

/-- The row as `update_memory_noted` saves it, column by column. -/
def priorVersion (row : Row) (node : MemoryNode) (editedBy changeNote : Option String)
    (now : DateTime) : VersionRow :=
  ⟨0, node.id, row.node.content, row.tags, row.salience, row.visibility, editedBy, C.rfc3339 now,
    changeNote⟩

/-- The first statements of `update_memory_noted`. -/
def snapshot (node : MemoryNode) (editedBy changeNote : Option String) (now : DateTime)
    (s : State) : State :=
  if s.row.node.content ≠ node.content then
    s.save (priorVersion C s.row node editedBy changeNote now)
  else s

/-- `update_memory_noted`. -/
def updateMemoryNoted (node : MemoryNode) (editedBy changeNote : Option String) (now : DateTime)
    (s : State) : State :=
  { snapshot C node editedBy changeNote now s with
    row := ⟨C.tagsText node.tags, node.salience, node.visibility.str,
      Interleaving.updateMemoryNoted now node s.row.node⟩ }

/-- The calls, with their arguments and the times they read. -/
inductive Call
  | updateMemory (args : Json) (now : DateTime)
  | restoreVersion (args : Json) (now later : DateTime)

/-- The version and the memory that `restore_version` finds. -/
def target (s : State) (args : Json) : Except String (VersionRow × MemoryNode) :=
  match (args.get? "version_id").bind Json.asI64 with
  | none => .error "version_id (integer) required"
  | some k =>
    match s.versions.get? k with
    | none => .error s!"version {k} not found"
    | some v =>
      match getMemory C s.row v.memoryId (agentScope args) with
      | none => .error s!"memory {v.memoryId} not found"
      | some node => .ok (v, node)

/-- What the version makes of the memory. -/
def restored (v : VersionRow) (node : MemoryNode) : MemoryNode :=
  { node with
    content := v.content
    tags := (C.readTags v.tagsJson).getD []
    salience := C.single (if C.finite v.salience then v.salience else 1 / 2) }

/-- `update_memory` and `restore_version` of `route`. -/
def step (s : State) : Call → State × Except String Unit
  | .updateMemory args now =>
    match (args.get? "memory_id").bind Json.asStr with
    | none => (s, .error "memory_id is required")
    | some id =>
      match getMemory C s.row id (agentScope args) with
      | none => (s, .error s!"memory not found: {id}")
      | some node =>
        match updated P args node with
        | .error e => (s, .error e)
        | .ok node => (updateMemoryNoted C node (agentScope args).agentId none now s, .ok ())
  | .restoreVersion args now later =>
    match target C s args with
    | .error e => (s, .error e)
    | .ok (v, node) =>
      (updateMemoryNoted C (restored C v node) none none later
        (logMemoryVersion C node ((args.get? "agent_id").bind Json.asStr)
          (some "auto-snapshot before restore") now s), .ok ())

/-! ### What is promised -/

/-- Content, tags and salience. -/
abbrev Body := String × Option (List String) × ℚ

/-- The body of the row, as it is read. -/
def Row.body (row : Row) : Body := (row.node.content, C.readTags row.tags, C.single row.salience)

/-- The body of a version, as it is read. -/
def versionBody (v : VersionRow) : Body := (v.content, C.readTags v.tagsJson, C.single v.salience)

/-- A call that changes the content adds one version, of the memory just before it. -/
def Saved (s : State) (c : Call) : Prop :=
  (step C P s c).1.row.node.content ≠ s.row.node.content →
    ∃ v, (step C P s c).1.versions.entries = s.versions.entries ++ [(s.nextId, v)] ∧
      v.memoryId = s.row.node.id ∧ versionBody C v = s.row.body C

/-- What a restore saved brings back what was there before it. -/
def Undone (s : State) : Call → Prop
  | .updateMemory _ _ => True
  | c@(.restoreVersion _ _ _) => ∀ k v, s.nextId ≤ k → (step C P s c).1.versions.get? k = some v →
    ∀ args now later, (args.get? "version_id").bind Json.asI64 = some k →
      visible (agentScope args) s.row.node = true →
      (step C P (step C P s c).1 (.restoreVersion args now later)).1.row.body C = s.row.body C

/-- A restore leaves the content as it is. -/
def KeepsContent (s : State) : Call → Prop
  | .updateMemory _ _ => True
  | .restoreVersion args _ _ => ∀ v node, target C s args = .ok (v, node) →
    v.content = s.row.node.content

/-- The salience before a restore is a number in JSON. -/
def FiniteBefore (s : State) : Call → Prop
  | .updateMemory _ _ => True
  | .restoreVersion _ _ _ => C.finite (C.single s.row.salience) = true

end

/-! ### What a call leaves -/

variable {C : Columns} {P : Prims} {s : State} {c : Call} {row : Row} {node : MemoryNode}
  {v : VersionRow} {args : Json}

theorem getMemory_eq_some {id : MemoryId} {scope : VisibilityScope} :
    getMemory C row id scope = some node ↔ (id = row.node.id ∧ visible scope row.node = true) ∧
      ∃ tags, C.readTags row.tags = some tags ∧
        { row.node with
          tags
          salience := C.single row.salience } = node := by
  rw [getMemory, Option.ite_none_right_eq_some, Option.map_eq_some_iff]

theorem target_eq_ok : target C s args = .ok (v, node) ↔
    ∃ k, (args.get? "version_id").bind Json.asI64 = some k ∧ s.versions.get? k = some v ∧
      getMemory C s.row v.memoryId (agentScope args) = some node := by
  rw [target]
  cases (args.get? "version_id").bind Json.asI64 with
  | none => simp
  | some k =>
    dsimp only
    cases hget : s.versions.get? k with
    | none => simp [hget]
    | some v' =>
      dsimp only
      cases hnode : getMemory C s.row v'.memoryId (agentScope args) with
      | none =>
        refine ⟨nofun, fun ⟨k', hk, hv, hmem⟩ => ?_⟩
        obtain rfl := Option.some.inj hk
        obtain rfl := Option.some.inj (hget.symm.trans hv)
        exact nomatch hnode.symm.trans hmem
      | some node' =>
        constructor
        · intro h
          obtain ⟨rfl, rfl⟩ := Prod.mk.inj (Except.ok.inj h)
          exact ⟨k, rfl, hget, hnode⟩
        · rintro ⟨k', hk, hv, hmem⟩
          obtain rfl := Option.some.inj hk
          obtain rfl := Option.some.inj (hget.symm.trans hv)
          rw [Option.some.inj (hnode.symm.trans hmem)]

/-- The body that an update writes. -/
theorem body_updateMemoryNoted (hlaw : C.Lawful) (editedBy note : Option String) (now : DateTime) :
    (updateMemoryNoted C node editedBy note now s).row.body C =
      (node.content, some node.tags, C.single node.salience) := by
  have htags : C.readTags (C.tagsText node.tags) = some node.tags := hlaw.tags _
  rw [Row.body]
  exact congrArg (fun tags => (node.content, tags, C.single node.salience)) htags

theorem step_restoreVersion_of_ok (now later : DateTime) (h : target C s args = .ok (v, node)) :
    (step C P s (.restoreVersion args now later)).1 =
      updateMemoryNoted C (restored C v node) none none later
        (logMemoryVersion C node ((args.get? "agent_id").bind Json.asStr)
          (some "auto-snapshot before restore") now s) := by
  rw [step, h]

theorem step_restoreVersion_of_error (now later : DateTime) {e : String}
    (h : target C s args = .error e) : (step C P s (.restoreVersion args now later)).1 = s := by
  rw [step, h]

/-- An update writes, or leaves all as it is. -/
theorem step_updateMemory_cases (args : Json) (now : DateTime) :
    (step C P s (.updateMemory args now)).1 = s ∨ ∃ node : MemoryNode, node.id = s.row.node.id ∧
      (step C P s (.updateMemory args now)).1 =
        updateMemoryNoted C node (agentScope args).agentId none now s := by
  rw [step]
  cases (args.get? "memory_id").bind Json.asStr with
  | none => exact .inl rfl
  | some id =>
    dsimp only
    cases hget : getMemory C s.row id (agentScope args) with
    | none => exact .inl rfl
    | some node =>
      dsimp only
      cases hupdated : updated P args node with
      | error e => exact .inl rfl
      | ok node' =>
        obtain ⟨-, tags, -, rfl⟩ := getMemory_eq_some.mp hget
        exact .inr ⟨node', (Interleaving.updated_kept hupdated).1.id, rfl⟩

/-! ### One version, or two -/

/-- **One version is saved** exactly if no restore changes the content. -/
theorem saved_iff : Saved C P s c ↔ KeepsContent C s c := by
  cases c with
  | updateMemory args now =>
    refine ⟨fun _ => trivial, fun _ hne => ?_⟩
    obtain hsame | ⟨node, hid, hstep⟩ := step_updateMemory_cases (C := C) (P := P) (s := s) args now
    · exact absurd (by rw [hsame]) hne
    rw [hstep] at hne ⊢
    have hcontent : s.row.node.content ≠ node.content := Ne.symm hne
    refine ⟨{ priorVersion C s.row node (agentScope args).agentId none now with id := s.nextId },
      ?_, hid, rfl⟩
    change (snapshot C node _ none now s).versions.entries = _
    rw [snapshot, if_pos hcontent, State.entries_save]
  | restoreVersion args now later =>
    cases htarget : target C s args with
    | error e =>
      refine ⟨fun _ v node hok => (nomatch htarget.symm.trans hok), fun _ hne => ?_⟩
      exact absurd (by rw [step_restoreVersion_of_error _ _ htarget]) hne
    | ok found =>
      obtain ⟨v, node⟩ := found
      have hstep := step_restoreVersion_of_ok (P := P) now later htarget
      constructor
      · intro hsaved v' node' hok
        obtain ⟨rfl, rfl⟩ := Prod.mk.inj (Except.ok.inj (htarget.symm.trans hok))
        by_contra hne
        rw [Saved, hstep] at hsaved
        obtain ⟨x, hentries, -⟩ := hsaved hne
        have hcontent : (logMemoryVersion C node ((args.get? "agent_id").bind Json.asStr)
            (some "auto-snapshot before restore") now s).row.node.content
              ≠ (restored C v node).content := Ne.symm hne
        change (snapshot C (restored C v node) none none later _).versions.entries = _ at hentries
        rw [snapshot, if_pos hcontent, State.entries_save, logMemoryVersion,
          State.entries_save] at hentries
        simpa using congrArg List.length hentries
      · intro hkeeps hne
        rw [hstep] at hne
        exact absurd (hkeeps v node htarget) hne

/-! ### Undoing a restore -/

/-- What a restore saves is the memory just before it, once or twice. -/
theorem saved_of_restore (hlaw : C.Lawful) {now later : DateTime}
    (htarget : target C s args = .ok (v, node)) {k : ℤ} {w : VersionRow} (hk : s.nextId ≤ k)
    (hget : (step C P s (.restoreVersion args now later)).1.versions.get? k = some w) :
    w.memoryId = s.row.node.id ∧ versionBody C w = s.row.body C ∧
      (C.finite (C.single s.row.salience) = true → C.finite w.salience = true) := by
  obtain ⟨-, -, -, hnode⟩ := target_eq_ok.mp htarget
  obtain ⟨-, tags, htags, rfl⟩ := getMemory_eq_some.mp hnode
  rw [step_restoreVersion_of_ok _ _ htarget] at hget
  change (snapshot C (restored C v _) none none later _).versions.get? k = some w at hget
  have hbody : s.row.body C = (s.row.node.content, some tags, C.single s.row.salience) := by
    rw [Row.body, htags]
  -- the one that the handler saves, or what was there before
  have hlogged (h : (logMemoryVersion C
      { s.row.node with
        tags
        salience := C.single s.row.salience } ((args.get? "agent_id").bind Json.asStr)
      (some "auto-snapshot before restore") now s).versions.get? k = some w) :
      w.memoryId = s.row.node.id ∧ versionBody C w = s.row.body C ∧
        (C.finite (C.single s.row.salience) = true → C.finite w.salience = true) := by
    rw [logMemoryVersion, State.get?_save] at h
    split at h
    · obtain rfl := Option.some.inj h
      refine ⟨rfl, ?_, fun hfinite => hfinite⟩
      rw [hbody, versionBody]
      dsimp only
      rw [hlaw.tags, hlaw.single]
    · rw [s.fresh k hk] at h
      cases h
  rw [snapshot] at hget
  split at hget
  · rw [State.get?_save] at hget
    split at hget
    · obtain rfl := Option.some.inj hget
      exact ⟨rfl, rfl, hlaw.finite _⟩
    · exact hlogged hget
  · exact hlogged hget

/-- **What a restore saved undoes it**, where the salience is a number in JSON. -/
theorem undone_of_finite (hlaw : C.Lawful) (hfinite : FiniteBefore C s c) : Undone C P s c := by
  cases c with
  | updateMemory args now => trivial
  | restoreVersion args now later =>
    intro k w hk hget args' now' later' hid hvisible
    cases htarget : target C s args with
    | error e =>
      rw [step_restoreVersion_of_error _ _ htarget, s.fresh k hk] at hget
      cases hget
    | ok found =>
      obtain ⟨v, node⟩ := found
      obtain ⟨hmemory, hbody, hnumber⟩ := saved_of_restore hlaw htarget hk hget
      obtain ⟨-, -, -, hnode⟩ := target_eq_ok.mp htarget
      obtain ⟨-, tags, htags, rfl⟩ := getMemory_eq_some.mp hnode
      have hrow := step_restoreVersion_of_ok (P := P) now later htarget
      have hfound : ∃ node', getMemory C (step C P s (.restoreVersion args now later)).1.row
          w.memoryId (agentScope args') = some node' := by
        rw [hrow]
        exact ⟨_, getMemory_eq_some.mpr ⟨⟨hmemory, hvisible⟩, _, hlaw.tags _, rfl⟩⟩
      obtain ⟨node', hnode'⟩ := hfound
      have htarget' := target_eq_ok.mpr ⟨k, hid, hget, hnode'⟩
      rw [step_restoreVersion_of_ok _ _ htarget', body_updateMemoryNoted hlaw, ← hbody, versionBody,
        restored]
      have hread : C.readTags w.tagsJson = some tags := by
        have := congrArg (fun b => b.2.1) hbody
        exact this.trans htags
      dsimp only
      rw [if_pos (hnumber hfinite), hread, hlaw.single]
      rfl

/-- What is promised of a call. -/
def Exact (C : Columns) (P : Prims) (s : State) (c : Call) : Prop := Saved C P s c ∧ Undone C P s c

/-- A restore leaves the content as it is, and the salience is a number in JSON. -/
def Steady (C : Columns) (s : State) (c : Call) : Prop := KeepsContent C s c ∧ FiniteBefore C s c

/-- **The history of versions is exact** in runs whose restores leave the content as it is, and the
number of versions is wrong at every other restore. -/
theorem versions_exact (C : Columns) (hlaw : C.Lawful) (P : Prims) (s : State) (calls : List Call) :
    (Run.Always (step C P) s (fun _ s c => Steady C s c) calls →
      Run.Always (step C P) s (fun _ s c => Exact C P s c) calls) ∧
    Run.Always (step C P) s (fun _ s c => (Saved C P s c ↔ KeepsContent C s c) ∧
      (FiniteBefore C s c → Undone C P s c)) calls := by
  refine ⟨fun h => h.mono fun _ s c hsteady => ?_, fun _ _ _ _ => ?_⟩
  · exact ⟨saved_iff.mpr hsteady.1, undone_of_finite hlaw hsteady.2⟩
  · exact ⟨saved_iff, undone_of_finite hlaw⟩

/-! ### A memory and its first versions -/

/-- A tag, every character after a backslash. -/
def quoteTag (tag : String) : List Char := tag.toList.flatMap (['\\', ·]) ++ [',']

/-- Tags that were quoted. -/
def readQuoted : List Char → List Char → Option (List String)
  | tag, '\\' :: c :: cs => readQuoted (tag ++ [c]) cs
  | tag, ',' :: cs => (readQuoted [] cs).map (String.ofList tag :: ·)
  | [], [']'] => some []
  | _, _ => none

theorem readQuoted_quoteTag (tag : List Char) (front rest : List Char) :
    readQuoted front (tag.flatMap (['\\', ·]) ++ ',' :: rest) =
      (readQuoted [] rest).map (String.ofList (front ++ tag) :: ·) := by
  induction tag generalizing front with
  | nil => simp [readQuoted]
  | cons c tag ih =>
    have hcons : (c :: tag).flatMap (['\\', ·]) ++ ',' :: rest =
        '\\' :: c :: (tag.flatMap (['\\', ·]) ++ ',' :: rest) := rfl
    rw [hcons, readQuoted, ih, List.append_assoc]
    rfl

/-- Columns without escapes but these, and with all floats finite. -/
def plainColumns : Columns where
  tagsText tags := String.ofList ('[' :: (tags.flatMap quoteTag ++ [']']))
  readTags text := readQuoted [] (text.toList.drop 1)
  finite _ := true
  single := id
  rfc3339 _ := ""

theorem plainColumns_lawful : plainColumns.Lawful where
  tags tags := by
    change readQuoted []
      ((String.ofList ('[' :: (tags.flatMap quoteTag ++ [']']))).toList.drop 1) = _
    rw [String.toList_ofList, List.drop_one, List.tail_cons]
    induction tags with
    | nil => rfl
    | cons tag tags ih =>
      rw [List.flatMap_cons, quoteTag, List.append_assoc, List.append_assoc, List.singleton_append,
        readQuoted_quoteTag, ih, List.nil_append, String.ofList_toList]
      rfl
  single _ := rfl
  finite _ _ := rfl

/-- The memory of the procedure, without versions. -/
def noVersions : State where
  row := ⟨"[]", 1 / 2, "shared", Interleaving.shared⟩
  versions := Table.empty
  nextId := 1
  fresh _ _ := rfl

def rewritten : Call :=
  .updateMemory (.object [("memory_id", .string "p"), ("content", .string "reload the service")]) 1

def restoredFirst : Call :=
  .restoreVersion (.object [("version_id", .number (.posInt 1))]) 2 3

theorem versions_exact_rewritten : Run.Always (step plainColumns Interleaving.unasked) noVersions
    (fun _ s c => Exact plainColumns Interleaving.unasked s c) [rewritten] :=
  (versions_exact plainColumns plainColumns_lawful _ _ _).1
    (Run.always_cons.mpr ⟨⟨trivial, trivial⟩, Run.Always.nil⟩)

/-- The content is rewritten and the first version restored: the restore saves two. -/
theorem not_versions_exact : ¬ ∀ C : Columns, C.Lawful → ∀ P s calls,
    Run.Always (step C P) s (fun _ s c => Exact C P s c) calls := by
  intro h
  have hrun := h plainColumns plainColumns_lawful Interleaving.unasked noVersions
    [rewritten, restoredFirst]
  have hsaved := (hrun [rewritten] restoredFirst [] rfl).1
  have hcontent := saved_iff.mp hsaved _ _ rfl
  revert hcontent
  decide

end ApexOS.Cerebro.Versions

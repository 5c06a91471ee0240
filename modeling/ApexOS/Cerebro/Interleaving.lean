import ApexOS.Agentd.Goal
import ApexOS.Cerebro.Reading
import ApexOS.Cerebro.Tags
import ApexOS.Lib.Run
import Mathlib.Data.List.DropRight

/-!
# Interleaved writes to one memory

The calls of `cerebro-mcp` that write a row of `memories`: `recall` and the dedup path of `remember`
(`cerebro/crates/cerebro/src/cortex.rs`), `update_memory`, `record_procedure_outcome`,
`share_memory` and `rename_tag` (`cerebro-mcp/src/dispatch.rs`). The store does one request at a
time. The last two calls are one request each. The others read the row in one request, change it in
memory, and write values back in a later one, when the row may be another than the one they read;
`remember` looks for the row in a request before.

A run is the order of these requests. All calls are about the same row, which is not deleted.

## Main definitions

* `run`: a call as if it were one request
* `step`: the requests of several calls
* `Intact`: what is promised
* `Fresh`: a row has what a call read of it

## Main results

* `Ledger`: the row as the calls made it, one after another
* `intact_of_fresh`: the promise in runs whose writes find what their calls read
-/

namespace ApexOS.Cerebro.Interleaving

open ApexOS.Agentd (isWhitespace)
open Reading (agentScope)

/-! ### The calls -/

/-- Functions of the libraries. -/
structure Prims where
  exp : ℚ → ℚ
  expM1 : ℚ → ℚ
  /-- `powf(-0.2)` -/
  powf : ℚ → ℚ
  /-- a number as a float of single precision -/
  asF32 : JsonNumber → ℚ
  toLowercase : String → String

/-- The calls, with their arguments and their time. -/
inductive Call
  | recallTraced (scope : VisibilityScope) (now : DateTime)
  | remember (scope : VisibilityScope) (content : String) (now : DateTime)
  | updateMemory (args : Json) (now : DateTime)
  | recordProcedureOutcome (args : Json) (now : DateTime)
  | shareMemory (args : Json)
  | renameTag (args : Json)

/-- The scope lets the row through. -/
def visible (scope : VisibilityScope) (row : MemoryNode) : Bool :=
  scope.sqlFilter row.visibility row.agentId

/-! ### Accesses -/

/-- `MAX_STORED_TIMESTAMPS`. -/
def maxStoredTimestamps : ℕ := 50

/-- `record_access`. -/
def recordAccess (now : DateTime) (node : MemoryNode) : MemoryNode :=
  let times := node.accessTimes ++ [now]
  { node with
    accessCount := min (node.accessCount + 1) (2 ^ 32 - 1)
    accessTimes := times.drop (times.length - maxStoredTimestamps) }

section

variable (P : Prims)

/-- `update_stability_on_recall`. -/
def updateStabilityOnRecall (stability difficulty r : ℚ) : ℚ :=
  let sInc := P.exp (11 - difficulty) * P.powf stability * P.expM1 ((1 - r) * 9)
  max (1 / 10) (min 365 (stability * (1 + sInc)))

/-- `update_difficulty_on_recall`. -/
def updateDifficultyOnRecall (difficulty r : ℚ) : ℚ :=
  let delta := -(8 / 10) * (r - 1 / 2)
  max 1 (min 10 (9 / 10 * (difficulty + delta) + 1 / 10 * 5))

/-- `record_recall_review`. -/
def recordRecallReview (now : DateTime) (node : MemoryNode) : MemoryNode :=
  let since := node.strength.lastReview.getD node.createdAt
  let elapsedDays : ℚ := max (((now - since).tdiv (10 ^ 9) : ℤ) / 86400) 0
  let r := Reading.Store.retrievability elapsedDays node.strength.stability
  { node with
    strength :=
      { stability := updateStabilityOnRecall P node.strength.stability node.strength.difficulty r
        difficulty := updateDifficultyOnRecall node.strength.difficulty r
        lastReview := some now } }

/-- `record_accesses`: the columns of the access history and of the review. -/
def recordAccesses (node row : MemoryNode) : MemoryNode :=
  { row with
    accessCount := node.accessCount
    accessTimes := node.accessTimes
    strength := node.strength }

/-! ### Edits -/

/-- A text argument that says something. -/
def textArg (args : Json) (key : String) : Option String :=
  (((args.get? key).bind Json.asStr).map fun s =>
    String.ofList ((s.toList.dropWhile isWhitespace).rdropWhile isWhitespace)).filter (· ≠ "")

/-- `effective_set_agent_id`. -/
def effectiveSetAgentId (args : Json) : Except String (Option AgentId) :=
  match textArg args "set_agent_id" with
  | none => .ok none
  | some requested =>
    match textArg args "agent_id" with
    | some caller =>
      if caller = requested then .ok (some caller)
      else .error ("set_agent_id must equal the caller (" ++ caller ++
        "); identity reassignment is admin-only")
    | none =>
      .error "set_agent_id requires a caller agent_id; identity reassignment is admin-only"

/-- The content, the salience and the tags of an edit. -/
def edited (args : Json) (node : MemoryNode) : MemoryNode :=
  { node with
    content := ((args.get? "content").bind Json.asStr).getD node.content
    salience := match args.get? "salience" with
      | some (.number n) => P.asF32 n
      | _ => node.salience
    tags := match args.get? "tags" with
      | none | some .null => node.tags
      | some value => Reading.coerceStrList value }

/-- An owner for a memory that has none. -/
def claimed (args : Json) (node : MemoryNode) : Except String MemoryNode := do
  match ← effectiveSetAgentId args with
  | none => pure node
  | some agent =>
    if node.agentId.isSome then
      throw ("set_agent_id is only for owner-less memories — transfer an owned memory with " ++
        "share_memory")
    else pure { node with agentId := some agent }

/-- The visibility that an edit names. -/
def disclosed (args : Json) (node : MemoryNode) : Except String MemoryNode :=
  match (args.get? "visibility").bind Json.asStr with
  | none => pure node
  | some v =>
    match P.toLowercase v with
    | "private" =>
      if node.agentId.isNone then
        throw ("refusing to privatize an owner-less memory (it would be visible to no one) — " ++
          "pass set_agent_id to attribute it first")
      else pure { node with visibility := .priv }
    | "shared" => pure { node with visibility := .shared }
    | "thread" => pure { node with visibility := .thread }
    | other => throw ("unknown visibility '" ++ other ++ "' (private|shared|thread)")

/-- What `update_memory` makes of the row it read. -/
def updated (args : Json) (node : MemoryNode) : Except String MemoryNode := do
  let node ← claimed args (edited P args node)
  disclosed P args node

/-- `update_memory_noted`: every column but the id and the time of creation. -/
def updateMemoryNoted (now : DateTime) (node row : MemoryNode) : MemoryNode :=
  { node with
    id := row.id
    createdAt := row.createdAt
    updatedAt := now }

/-! ### Outcomes -/

/-- A count of the ledger of outcomes. -/
def outcomeCount (outcomes : Json) (key : String) : UInt64 :=
  ((outcomes.get? key).bind Json.asU64).getD 0

/-- The key that an outcome is counted under. -/
def outcomeKey (success : Bool) : String := if success then "successes" else "failures"

def noOutcomes : Json :=
  .object [("successes", .number (.posInt 0)), ("failures", .number (.posInt 0))]

/-- The ledger in a memory's metadata, set up where there is none. -/
def outcomesOf (metadata : Json) : Json :=
  let outcomes := (metadata.get? "outcomes").getD noOutcomes
  if outcomes.isObject then outcomes else noOutcomes

/-- `record_outcome_ledger`. -/
def recordOutcomeLedger (success : Bool) (metadata : Json) : Json :=
  let map := if metadata.isObject then metadata else .object []
  let outcomes := outcomesOf map
  map.insert "outcomes" (outcomes.insert (outcomeKey success)
    (.number (.posInt (outcomeCount outcomes (outcomeKey success) + 1))))

/-- `PRUNE_CANDIDATE_SALIENCE`. -/
def pruneCandidateSalience : ℚ := 25 / 100

/-- What `record_procedure_outcome` makes of the row it read. -/
def withOutcome (success : Bool) (node : MemoryNode) : MemoryNode :=
  let node : MemoryNode :=
    if success then
      { node with
        salience := min (node.salience + 1 / 10) 1
        strength :=
          { node.strength with difficulty := max (node.strength.difficulty - 3 / 10) 1 }
        tags := node.tags.filter (· ≠ "prune_candidate") }
    else
      let salience := max (node.salience - 15 / 100) 0
      { node with
        salience
        strength :=
          { node.strength with difficulty := min (node.strength.difficulty + 1 / 2) 10 }
        tags :=
          if salience ≤ pruneCandidateSalience && !node.tags.contains "prune_candidate" then
            node.tags ++ ["prune_candidate"]
          else node.tags }
  { node with metadata := recordOutcomeLedger success node.metadata }

/-! ### Single requests -/

/-- `share_memory`; nothing where the row is not seen or not the caller's. -/
def shareMemory (scope : VisibilityScope) (target : Option AgentId) (row : MemoryNode) :
    Option MemoryNode :=
  if !visible scope row || (scope.agentId.isSome && row.agentId ≠ scope.agentId) then none
  else
    match target with
    | some agent => some { row with visibility := .priv, agentId := some agent }
    | none => some { row with visibility := .shared, agentId := none }

/-- `rename_tag_everywhere`, on this row. -/
def renameTag (scope : VisibilityScope) (old new : String) (row : MemoryNode) :
    Option MemoryNode :=
  if visible scope row && row.tags.contains old then
    some { row with tags := row.tags.map (Tags.renamed old new) }
  else none

/-! ### One call -/

/-- The row is one that the call is about: the content and the owner that `remember` looks for. -/
def finds : Call → MemoryNode → Bool
  | .remember scope content _, row => row.content == content && row.agentId == scope.agentId
  | _, _ => true

/-- The scope of the call's read lets the row through. -/
def reads : Call → MemoryNode → Bool
  | .recallTraced scope _, row | .remember scope _ _, row => visible scope row
  | .updateMemory args _, row | .recordProcedureOutcome args _, row => visible (agentScope args) row
  | _, _ => true

/-- What a call that read a row writes to the row that is there; nothing where it fails. The single
requests read nothing before. -/
def writes : Call → (read row : MemoryNode) → Option MemoryNode
  | .recallTraced _ now, read, row =>
    some (recordAccesses (recordRecallReview P now (recordAccess now read)) row)
  | .remember _ _ now, read, row => some (recordAccesses (recordAccess now read) row)
  | .updateMemory args now, read, row =>
    match updated P args read with
    | .ok node => some (updateMemoryNoted now node row)
    | .error _ => none
  | .recordProcedureOutcome args now, read, row =>
    match (args.get? "success").bind Json.asBool with
    | some success => some (updateMemoryNoted now (withOutcome success read) row)
    | none => none
  | .shareMemory args, _, row =>
    shareMemory (agentScope args) ((args.get? "target_agent_id").bind Json.asStr) row
  | .renameTag args, _, row =>
    match (args.get? "old_tag").bind Json.asStr, (args.get? "new_tag").bind Json.asStr with
    | some old, some new => renameTag (agentScope args) old new row
    | _, _ => none

/-- A call as if it were one request: the row that it leaves, if it writes. -/
def run (c : Call) (row : MemoryNode) : Option MemoryNode :=
  if finds c row && reads c row then writes P c row row else none

/-! ### Several calls -/

/-- A call that has read: `remember` has found the row, or the row is loaded. -/
inductive Stage
  | found (c : Call) (found : MemoryNode)
  | loaded (c : Call) (found read : MemoryNode)

/-- A call that is done, and whether it wrote the row. -/
structure Entry where
  call : Call
  wrote : Bool

/-- The row, the calls that are under way, and those that are done, in order. -/
structure State where
  row : MemoryNode
  pending : Table ℕ Stage
  log : List Entry

def State.init (row : MemoryNode) : State := ⟨row, .empty, []⟩

/-- A call comes to its end. -/
def State.done (s : State) (c : Call) : Option MemoryNode → State
  | some row => { s with row, log := s.log ++ [⟨c, true⟩] }
  | none => { s with log := s.log ++ [⟨c, false⟩] }

/-- One request of a call: its first, the second read of `remember`, its write. -/
inductive Event
  | start (i : ℕ) (c : Call)
  | load (i : ℕ)
  | commit (i : ℕ)

def step (s : State) : Event → State × Unit
  | .start i c =>
    if s.pending.contains i then (s, ())
    else
      match c with
      | .shareMemory _ | .renameTag _ => (s.done c (run P c s.row), ())
      | .remember .. =>
        if finds c s.row then ({ s with pending := s.pending.insert i (.found c s.row) }, ())
        else (s.done c none, ())
      | .recallTraced .. | .updateMemory .. | .recordProcedureOutcome .. =>
        if reads c s.row then
          ({ s with pending := s.pending.insert i (.loaded c s.row s.row) }, ())
        else (s.done c none, ())
  | .load i =>
    match s.pending.get? i with
    | some (.found c found) =>
      if reads c s.row then
        ({ s with pending := s.pending.insert i (.loaded c found s.row) }, ())
      else ({ s with pending := s.pending.erase i }.done c none, ())
    | _ => (s, ())
  | .commit i =>
    match s.pending.get? i with
    | some (.loaded c _ read) =>
      ({ s with pending := s.pending.erase i }.done c (writes P c read s.row), ())
    | _ => (s, ())

/-! ### What is promised -/

/-- The call counts an access. -/
def Call.isAccess : Call → Bool
  | .recallTraced .. | .remember .. => true
  | _ => false

/-- The call counts an outcome. -/
def Call.isOutcome : Call → Bool
  | .recordProcedureOutcome .. => true
  | _ => false

/-- The call is about the visibility. -/
def Call.namesVisibility : Call → Bool
  | .shareMemory _ => true
  | .updateMemory args _ => ((args.get? "visibility").bind Json.asStr).isSome
  | _ => false

/-- The wins and the losses of a memory. -/
def outcomeTotal (metadata : Json) : ℕ :=
  let outcomes := (metadata.get? "outcomes").getD .null
  (outcomeCount outcomes "successes").toNat + (outcomeCount outcomes "failures").toNat

/-- A call, one after another. -/
def exec (row : MemoryNode) (c : Call) : MemoryNode := (run P c row).getD row

/-- The row is what the calls that are done make of it in some order; each access and each outcome
is counted; and what `share_memory` set stays, unless a later call is about the visibility. -/
structure Intact (row₀ : MemoryNode) (s : State) : Prop where
  serial : ∃ order : List Call, order.Perm (s.log.map Entry.call) ∧
    s.row = order.foldl (exec P) row₀
  accesses : s.row.accessCount = row₀.accessCount +
    s.log.countP fun e => e.wrote && e.call.isAccess
  outcomes : outcomeTotal s.row.metadata = outcomeTotal row₀.metadata +
    s.log.countP fun e => e.wrote && e.call.isOutcome
  shared : ∀ earlier args later, s.log = earlier ++ ⟨.shareMemory args, true⟩ :: later →
    (∀ e ∈ later, e.call.namesVisibility = false) →
    match (args.get? "target_agent_id").bind Json.asStr with
    | some agent => s.row.visibility = .priv ∧ s.row.agentId = some agent
    | none => s.row.visibility = .shared

/-- What an access reads is in the row as it was. -/
structure SameAccess (read row : MemoryNode) : Prop where
  accessCount : row.accessCount = read.accessCount
  accessTimes : row.accessTimes = read.accessTimes
  strength : row.strength = read.strength
  createdAt : row.createdAt = read.createdAt
  visibility : row.visibility = read.visibility
  agentId : row.agentId = read.agentId

/-- The row has what the call read of it: for an access its columns and those that say who sees it
(and for `remember` what it was found by), for an edit all but the time of the last one. -/
def Fresh : Call → (found read row : MemoryNode) → Prop
  | .recallTraced .., _, read, row => SameAccess read row
  | .remember .., found, read, row =>
    SameAccess read row ∧ row.content = found.content ∧ row.agentId = found.agentId
  | _, _, read, row => { row with updatedAt := read.updatedAt } = read

/-- The counts have room for one more. -/
def Room (c : Call) (row : MemoryNode) : Prop :=
  (c.isAccess = true → row.accessCount + 1 < 2 ^ 32) ∧
    (c.isOutcome = true → ∀ success,
      (outcomeCount (outcomesOf row.metadata) (outcomeKey success)).toNat + 1 < 2 ^ 64)

/-- A write finds what its call read. -/
def Harmless (s : State) : Event → Prop
  | .commit i => ∀ c found read, s.pending.get? i = some (.loaded c found read) →
    Fresh c found read s.row ∧ Room c s.row
  | _ => True

end

/-! ### A write that finds what was read -/

section Proofs

variable {P : Prims} {c : Call} {row found read r r' : MemoryNode}

theorem claimed_touched (args : Json) (node : MemoryNode) (at_ : DateTime) :
    claimed args { node with updatedAt := at_ } =
      (claimed args node).map fun n => { n with updatedAt := at_ } := by
  rw [claimed, claimed]
  cases effectiveSetAgentId args with
  | error e => rfl
  | ok agent =>
    cases agent with
    | none => rfl
    | some agent =>
      obtain ⟨_, _, _, _, _, _, owner⟩ := node
      cases owner <;> rfl

theorem disclosed_touched (args : Json) (node : MemoryNode) (at_ : DateTime) :
    disclosed P args { node with updatedAt := at_ } =
      (disclosed P args node).map fun n => { n with updatedAt := at_ } := by
  rw [disclosed, disclosed]
  cases (args.get? "visibility").bind Json.asStr with
  | none => rfl
  | some v =>
    dsimp only
    split
    · obtain ⟨_, _, _, _, _, _, owner⟩ := node
      cases owner <;> rfl
    · rfl
    · rfl
    · rfl

/-- An edit does not look at the time of the last one. -/
theorem updated_touched (args : Json) (node : MemoryNode) (at_ : DateTime) :
    updated P args { node with updatedAt := at_ } =
      (updated P args node).map fun n => { n with updatedAt := at_ } := by
  have hedited : edited P args { node with updatedAt := at_ } =
      { edited P args node with updatedAt := at_ } := rfl
  rw [updated, updated, hedited, claimed_touched]
  cases claimed args (edited P args node) with
  | error e => rfl
  | ok n => exact disclosed_touched args n at_

theorem withOutcome_touched (success : Bool) (node : MemoryNode) (at_ : DateTime) :
    withOutcome success { node with updatedAt := at_ } =
      { withOutcome success node with updatedAt := at_ } := by
  cases success <;> rfl

theorem recordAccesses_congr (h : SameAccess read row) (now : DateTime) :
    recordAccesses (recordAccess now read) row = recordAccesses (recordAccess now row) row ∧
      recordAccesses (recordRecallReview P now (recordAccess now read)) row
        = recordAccesses (recordRecallReview P now (recordAccess now row)) row := by
  simp only [recordAccesses, recordRecallReview, recordAccess, h.accessCount, h.accessTimes,
    h.strength, h.createdAt, and_self]

theorem run_eq (hfinds : finds c row = true) (hreads : reads c row = true) :
    run P c row = writes P c row row := by
  rw [run, hfinds, hreads]
  rfl

/-- The call does what it would do now. -/
theorem run_of_fresh (hfinds : finds c found = true) (hreads : reads c read = true)
    (h : Fresh c found read row) : run P c row = writes P c read row := by
  have hsame : ∀ scope, SameAccess read row → visible scope read = true →
      visible scope row = true := fun scope hsame hvisible => by
    rwa [visible, hsame.visibility, hsame.agentId]
  cases c with
  | recallTraced scope now =>
    have hrow : SameAccess read row := h
    have hnow : reads (.recallTraced scope now) row = true := hsame scope hrow hreads
    rw [run_eq rfl hnow]
    exact congrArg some (recordAccesses_congr hrow now).2.symm
  | remember scope content now =>
    obtain ⟨hrow, hcontent, hagent⟩ := h
    have hfound : finds (.remember scope content now) row = true := by
      rw [← hfinds]
      simp only [finds, hcontent, hagent]
    have hnow : reads (.remember scope content now) row = true := hsame scope hrow hreads
    rw [run_eq hfound hnow]
    exact congrArg some (recordAccesses_congr (P := P) hrow now).1.symm
  | updateMemory args now =>
    obtain ⟨at_, rfl⟩ : ∃ at_, read = { row with updatedAt := at_ } := ⟨_, Eq.symm h⟩
    have hnow : reads (.updateMemory args now) row = true := hreads
    rw [run_eq rfl hnow]
    show (match updated P args row with | .ok _ => _ | .error _ => _) =
      match updated P args { row with updatedAt := at_ } with | .ok _ => _ | .error _ => _
    rw [updated_touched args row at_]
    cases updated P args row <;> rfl
  | recordProcedureOutcome args now =>
    obtain ⟨at_, rfl⟩ : ∃ at_, read = { row with updatedAt := at_ } := ⟨_, Eq.symm h⟩
    have hnow : reads (.recordProcedureOutcome args now) row = true := hreads
    rw [run_eq rfl hnow, writes, writes]
    cases (args.get? "success").bind Json.asBool with
    | none => rfl
    | some success =>
      show some _ = some (updateMemoryNoted now (withOutcome success { row with updatedAt := at_ })
        row)
      rw [withOutcome_touched success row at_]
      rfl
  | shareMemory args => rfl
  | renameTag args => rfl

/-! ### What a call makes of the counts -/

theorem run_eq_some (h : run P c r = some r') :
    finds c r = true ∧ reads c r = true ∧ writes P c r r = some r' := by
  rw [run] at h
  split_ifs at h with hguard
  obtain ⟨hfinds, hreads⟩ := Bool.and_eq_true_iff.mp hguard
  exact ⟨hfinds, hreads, h⟩

/-- What an edit leaves as it was, but for the visibility. -/
structure Kept (node n : MemoryNode) : Prop where
  id : n.id = node.id
  accessCount : n.accessCount = node.accessCount
  metadata : n.metadata = node.metadata
  agentId : ∀ agent, node.agentId = some agent → n.agentId = some agent

theorem Kept.trans {node m n : MemoryNode} (h : Kept node m) (h' : Kept m n) : Kept node n :=
  ⟨h'.id.trans h.id, h'.accessCount.trans h.accessCount, h'.metadata.trans h.metadata,
    fun agent hagent => h'.agentId agent (h.agentId agent hagent)⟩

/-- Only a memory without an owner gets one. -/
theorem claimed_kept {args : Json} {node n : MemoryNode} (h : claimed args node = .ok n) :
    Kept node n ∧ n.visibility = node.visibility := by
  rw [claimed] at h
  cases hset : effectiveSetAgentId args with
  | error e => simp [hset, bind, Except.bind] at h
  | ok agent =>
    cases agent with
    | none =>
      simp only [hset, bind, Except.bind, pure, Except.pure, Except.ok.injEq] at h
      subst h
      exact ⟨⟨rfl, rfl, rfl, fun _ h => h⟩, rfl⟩
    | some agent =>
      simp only [hset, bind, Except.bind] at h
      split_ifs at h with howned
      cases h
      refine ⟨⟨rfl, rfl, rfl, fun other hother => ?_⟩, rfl⟩
      exact absurd (by rw [hother]; rfl) howned

/-- The visibility changes where the edit names one. -/
theorem disclosed_kept {args : Json} {node n : MemoryNode} (h : disclosed P args node = .ok n) :
    Kept node n ∧ (((args.get? "visibility").bind Json.asStr).isSome = false →
      n.visibility = node.visibility) := by
  rw [disclosed] at h
  cases hv : (args.get? "visibility").bind Json.asStr with
  | none =>
    simp only [hv, pure, Except.pure, Except.ok.injEq] at h
    subst h
    exact ⟨⟨rfl, rfl, rfl, fun _ h => h⟩, fun _ => rfl⟩
  | some v =>
    refine ⟨?_, fun h => by cases h⟩
    simp only [hv] at h
    split at h
    · split_ifs at h
      cases h
      exact ⟨rfl, rfl, rfl, fun _ h => h⟩
    · cases h
      exact ⟨rfl, rfl, rfl, fun _ h => h⟩
    · cases h
      exact ⟨rfl, rfl, rfl, fun _ h => h⟩
    · cases h

theorem updated_kept {args : Json} {node n : MemoryNode} (h : updated P args node = .ok n) :
    Kept node n ∧ (((args.get? "visibility").bind Json.asStr).isSome = false →
      n.visibility = node.visibility) := by
  rw [updated] at h
  cases hm : claimed args (edited P args node) with
  | error e => simp [hm, bind, Except.bind] at h
  | ok m =>
    simp only [hm, bind, Except.bind] at h
    obtain ⟨hclaimed, hsame⟩ := claimed_kept hm
    obtain ⟨hdisclosed, hvisibility⟩ := disclosed_kept h
    have hkept := hclaimed.trans hdisclosed
    exact ⟨⟨hkept.id, hkept.accessCount, hkept.metadata, hkept.agentId⟩,
      fun hunnamed => (hvisibility hunnamed).trans hsame⟩

theorem isObject_outcomesOf (metadata : Json) : (outcomesOf metadata).isObject = true := by
  rw [outcomesOf]
  split_ifs with h
  · exact h
  · rfl

/-- What is no ledger counts nothing. -/
theorem outcomeTotal_eq (metadata : Json) : outcomeTotal metadata =
    (outcomeCount (outcomesOf metadata) "successes").toNat +
      (outcomeCount (outcomesOf metadata) "failures").toNat := by
  have hnothing : ∀ (j : Json) (key : String), j.isObject = false → outcomeCount j key = 0 := by
    intro j key hj
    cases j with
    | object fields => cases hj
    | _ => rfl
  rw [outcomeTotal, outcomesOf]
  cases metadata.get? "outcomes" with
  | none => rfl
  | some outcomes =>
    dsimp only [Option.getD_some]
    split_ifs with h
    · rfl
    · rw [hnothing outcomes _ (Bool.eq_false_iff.mpr h), hnothing outcomes _
        (Bool.eq_false_iff.mpr h)]
      rfl

theorem outcomesOf_object (metadata : Json) :
    outcomesOf (if metadata.isObject then metadata else .object []) = outcomesOf metadata := by
  split_ifs with h
  · rfl
  · cases metadata with
    | object fields => exact absurd rfl h
    | _ => rfl

/-- **An outcome is counted.** -/
theorem outcomeTotal_record (success : Bool) (metadata : Json)
    (hroom : (outcomeCount (outcomesOf metadata) (outcomeKey success)).toNat + 1 < 2 ^ 64) :
    outcomeTotal (recordOutcomeLedger success metadata) = outcomeTotal metadata + 1 := by
  have hmap : (if metadata.isObject then metadata else .object [] : Json).isObject = true := by
    split_ifs with h
    · exact h
    · rfl
  have hself : ∀ key value, outcomeCount ((outcomesOf metadata).insert key
      (.number (.posInt value))) key = value := fun key value => by
    rw [outcomeCount, Json.get?_insert_self (isObject_outcomesOf metadata)]
    rfl
  have hother : ∀ {key other : String} (value : Json), other ≠ key →
      outcomeCount ((outcomesOf metadata).insert key value) other
        = outcomeCount (outcomesOf metadata) other := fun value hne => by
    rw [outcomeCount, Json.get?_insert_of_ne hne]
    rfl
  have hadd : ∀ x : UInt64, x.toNat + 1 < 2 ^ 64 → (x + 1).toNat = x.toNat + 1 := fun x hx => by
    rw [UInt64.toNat_add]
    exact Nat.mod_eq_of_lt hx
  rw [outcomeTotal, recordOutcomeLedger, Json.get?_insert_self hmap, outcomesOf_object,
    outcomeTotal_eq, Option.getD_some]
  cases success with
  | true =>
    rw [outcomeKey, if_pos rfl] at hroom ⊢
    rw [hself, hother _ (by decide), hadd _ hroom]
    omega
  | false =>
    rw [outcomeKey, if_neg (by decide)] at hroom ⊢
    rw [hself, hother _ (by decide), hadd _ hroom]
    omega

/-- The row that an edit leaves. -/
theorem writes_updateMemory {args : Json} {now : DateTime}
    (h : writes P (.updateMemory args now) r r = some r') :
    ∃ n, updated P args r = .ok n ∧ r' = updateMemoryNoted now n r := by
  rw [writes] at h
  cases hn : updated P args r with
  | error e => simp [hn] at h
  | ok n =>
    simp only [hn, Option.some.injEq] at h
    exact ⟨n, rfl, h.symm⟩

theorem writes_recordProcedureOutcome {args : Json} {now : DateTime}
    (h : writes P (.recordProcedureOutcome args now) r r = some r') :
    ∃ success, r' = updateMemoryNoted now (withOutcome success r) r := by
  rw [writes] at h
  cases hs : (args.get? "success").bind Json.asBool with
  | none => simp [hs] at h
  | some success =>
    simp only [hs, Option.some.injEq] at h
    exact ⟨success, h.symm⟩

theorem writes_shareMemory {args : Json} (h : writes P (.shareMemory args) r r = some r') :
    match (args.get? "target_agent_id").bind Json.asStr with
    | some agent => r' = { r with visibility := .priv, agentId := some agent }
    | none => r' = { r with visibility := .shared, agentId := none } := by
  rw [writes, shareMemory.eq_def] at h
  split_ifs at h
  cases htarget : (args.get? "target_agent_id").bind Json.asStr with
  | none =>
    rw [htarget] at h
    exact (Option.some.inj h).symm
  | some agent =>
    rw [htarget] at h
    exact (Option.some.inj h).symm

theorem writes_renameTag {args : Json} (h : writes P (.renameTag args) r r = some r') :
    ∃ tags, r' = { r with tags } := by
  rw [writes] at h
  split at h
  · rw [renameTag] at h
    split_ifs at h
    exact ⟨_, (Option.some.inj h).symm⟩
  · cases h

/-- What a call makes of the visibility and the owner. -/
theorem run_visibility (h : run P c r = some r') (hc : c.namesVisibility = false) :
    r'.visibility = r.visibility ∧ ∀ agent, r.agentId = some agent → r'.agentId = some agent := by
  obtain ⟨-, -, hw⟩ := run_eq_some h
  cases c with
  | recallTraced | remember =>
    cases hw
    exact ⟨rfl, fun _ h => h⟩
  | updateMemory args now =>
    obtain ⟨n, hn, rfl⟩ := writes_updateMemory hw
    obtain ⟨hkept, hvisibility⟩ := updated_kept hn
    exact ⟨hvisibility hc, hkept.agentId⟩
  | recordProcedureOutcome args now =>
    obtain ⟨success, rfl⟩ := writes_recordProcedureOutcome hw
    cases success <;> exact ⟨rfl, fun _ h => h⟩
  | shareMemory args => cases hc
  | renameTag args =>
    obtain ⟨tags, rfl⟩ := writes_renameTag hw
    exact ⟨rfl, fun _ h => h⟩

/-- What a call makes of the count of accesses. -/
theorem run_accesses (h : run P c r = some r') (hroom : Room c r) :
    r'.accessCount = r.accessCount + if c.isAccess then 1 else 0 := by
  obtain ⟨-, -, hw⟩ := run_eq_some h
  cases c with
  | recallTraced | remember =>
    cases hw
    exact min_eq_left (Nat.le_sub_one_of_lt (hroom.1 rfl))
  | updateMemory args now =>
    obtain ⟨n, hn, rfl⟩ := writes_updateMemory hw
    exact (updated_kept hn).1.accessCount
  | recordProcedureOutcome args now =>
    obtain ⟨success, rfl⟩ := writes_recordProcedureOutcome hw
    cases success <;> rfl
  | shareMemory args =>
    have hshared := writes_shareMemory hw
    split at hshared <;> rw [hshared] <;> rfl
  | renameTag args =>
    obtain ⟨tags, rfl⟩ := writes_renameTag hw
    rfl

/-- What a call makes of the outcomes. -/
theorem run_outcomes (h : run P c r = some r') (hroom : Room c r) :
    outcomeTotal r'.metadata = outcomeTotal r.metadata + if c.isOutcome then 1 else 0 := by
  obtain ⟨-, -, hw⟩ := run_eq_some h
  cases c with
  | recallTraced | remember =>
    cases hw
    rfl
  | updateMemory args now =>
    obtain ⟨n, hn, rfl⟩ := writes_updateMemory hw
    exact congrArg outcomeTotal (updated_kept hn).1.metadata
  | recordProcedureOutcome args now =>
    obtain ⟨success, rfl⟩ := writes_recordProcedureOutcome hw
    have hmetadata : (withOutcome success r).metadata = recordOutcomeLedger success r.metadata := by
      cases success <;> rfl
    exact (congrArg outcomeTotal hmetadata).trans
      (outcomeTotal_record success r.metadata (hroom.2 rfl success))
  | shareMemory args =>
    have hshared := writes_shareMemory hw
    split at hshared <;> rw [hshared] <;> rfl
  | renameTag args =>
    obtain ⟨tags, rfl⟩ := writes_renameTag hw
    rfl

end Proofs

/-! ### One call after another -/

section Runs

variable {P : Prims} {row₀ row : MemoryNode} {log : List Entry} {s : State}

/-- The row as the calls of a log made it, one after another, each with room for its count. -/
inductive Ledger (P : Prims) (row₀ : MemoryNode) : List Entry → MemoryNode → Prop
  | nil : Ledger P row₀ [] row₀
  | failed {log : List Entry} {row : MemoryNode} {c : Call} : Ledger P row₀ log row →
      run P c row = none → Ledger P row₀ (log ++ [⟨c, false⟩]) row
  | wrote {log : List Entry} {row row' : MemoryNode} {c : Call} : Ledger P row₀ log row →
      run P c row = some row' → Room c row → Ledger P row₀ (log ++ [⟨c, true⟩]) row'

theorem Ledger.serial (h : Ledger P row₀ log row) :
    row = (log.map Entry.call).foldl (exec P) row₀ := by
  induction h with
  | nil => rfl
  | failed _ hrun ih =>
    rw [List.map_append, List.foldl_append, ← ih]
    exact (by rw [exec, hrun] : _ = exec P _ _)
  | wrote _ hrun _ ih =>
    rw [List.map_append, List.foldl_append, ← ih]
    exact (by rw [exec, hrun] : _ = exec P _ _)

theorem Ledger.accesses (h : Ledger P row₀ log row) : row.accessCount = row₀.accessCount +
    log.countP fun e => e.wrote && e.call.isAccess := by
  induction h with
  | nil => rfl
  | failed _ _ ih => simpa using ih
  | wrote _ hrun hroom ih =>
    rw [run_accesses hrun hroom, ih, List.countP_append, List.countP_singleton, Bool.true_and,
      Nat.add_assoc]

theorem Ledger.outcomes (h : Ledger P row₀ log row) : outcomeTotal row.metadata =
    outcomeTotal row₀.metadata + log.countP fun e => e.wrote && e.call.isOutcome := by
  induction h with
  | nil => rfl
  | failed _ _ ih => simpa using ih
  | wrote _ hrun hroom ih =>
    rw [run_outcomes hrun hroom, ih, List.countP_append, List.countP_singleton, Bool.true_and,
      Nat.add_assoc]

theorem concat_eq_append_cons {α : Type*} {l earlier later : List α} {e x : α}
    (h : l ++ [e] = earlier ++ x :: later) :
    (later = [] ∧ e = x) ∨ ∃ later', later = later' ++ [e] ∧ l = earlier ++ x :: later' := by
  obtain rfl | ⟨later', last, rfl⟩ := List.eq_nil_or_concat later
  · exact .inl ⟨rfl, List.singleton_inj.mp (List.append_inj_right' h rfl)⟩
  · rw [List.concat_eq_append, ← List.cons_append, ← List.append_assoc] at h
    obtain ⟨rfl, hlast⟩ := List.append_inj' h rfl
    exact .inr ⟨later', by rw [List.concat_eq_append, List.singleton_inj.mp hlast], rfl⟩

/-- What `share_memory` set is there until a call about the visibility. -/
theorem Ledger.shared (h : Ledger P row₀ log row) {earlier later : List Entry} {args : Json}
    (hlog : log = earlier ++ ⟨.shareMemory args, true⟩ :: later)
    (hlater : ∀ e ∈ later, e.call.namesVisibility = false) :
    match (args.get? "target_agent_id").bind Json.asStr with
    | some agent => row.visibility = .priv ∧ row.agentId = some agent
    | none => row.visibility = .shared := by
  induction h generalizing later with
  | nil => simp at hlog
  | failed _ _ ih =>
    obtain ⟨-, he⟩ | ⟨later', rfl, hlog'⟩ := concat_eq_append_cons hlog
    · cases he
    · exact ih hlog' fun e he => hlater e (List.mem_append_left _ he)
  | wrote _ hrun _ ih =>
    obtain ⟨-, he⟩ | ⟨later', rfl, hlog'⟩ := concat_eq_append_cons hlog
    · cases he
      have hshared := writes_shareMemory (run_eq_some hrun).2.2
      split at hshared <;> rw [hshared]
      exact ⟨rfl, rfl⟩
    · have hrow := ih hlog' fun e he => hlater e (List.mem_append_left _ he)
      have hlast := hlater _ (List.mem_append_right _ List.mem_cons_self)
      obtain ⟨hvisibility, hagent⟩ := run_visibility hrun hlast
      split at hrow
      · exact ⟨hvisibility.trans hrow.1, hagent _ hrow.2⟩
      · exact hvisibility.trans hrow

/-! ### The invariant -/

/-- The row that a call under way found and the one that it read pass the tests of the call. -/
def Stage.Sound : Stage → Prop
  | .found c row => finds c row = true
  | .loaded c row read => finds c row = true ∧ reads c read = true

/-- The invariant: the row is what the log says, and the calls under way read what they say. -/
structure Law (P : Prims) (row₀ : MemoryNode) (s : State) : Prop where
  ledger : Ledger P row₀ s.log s.row
  sound : ∀ i stage, s.pending.get? i = some stage → stage.Sound

theorem Law.init : Law P row₀ (.init row₀) :=
  ⟨.nil, fun _ _ h => by cases h⟩

theorem Law.insert (h : Law P row₀ s) (i : ℕ) {stage : Stage} (hstage : stage.Sound) :
    Law P row₀ { s with pending := s.pending.insert i stage } := by
  refine ⟨h.ledger, fun j other hj => ?_⟩
  rw [Table.get?_insert] at hj
  split_ifs at hj
  · exact Option.some.inj hj ▸ hstage
  · exact h.sound j other hj

theorem Law.erase (h : Law P row₀ s) (i : ℕ) :
    Law P row₀ { s with pending := s.pending.erase i } := by
  refine ⟨h.ledger, fun j other hj => ?_⟩
  rw [Table.get?_erase] at hj
  split_ifs at hj
  exact h.sound j other hj

/-- A call that ends as if it were one request keeps the invariant. -/
theorem Law.done (h : Law P row₀ s) {c : Call} {o : Option MemoryNode} (ho : run P c s.row = o)
    (hroom : o.isSome = true → Room c s.row) : Law P row₀ (s.done c o) := by
  cases o with
  | none => exact ⟨.failed h.ledger ho, h.sound⟩
  | some row => exact ⟨.wrote h.ledger ho (hroom rfl), h.sound⟩

theorem room_of_not {c : Call} {row : MemoryNode} (haccess : c.isAccess = false)
    (houtcome : c.isOutcome = false) : Room c row :=
  ⟨fun h => Bool.noConfusion (haccess.symm.trans h),
    fun h => Bool.noConfusion (houtcome.symm.trans h)⟩

theorem run_of_not_finds {c : Call} {row : MemoryNode} (h : ¬ finds c row = true) :
    run P c row = none :=
  if_neg fun hguard => h (Bool.and_eq_true_iff.mp hguard).1

theorem run_of_not_reads {c : Call} {row : MemoryNode} (h : ¬ reads c row = true) :
    run P c row = none :=
  if_neg fun hguard => h (Bool.and_eq_true_iff.mp hguard).2

theorem Law.start (h : Law P row₀ s) (i : ℕ) (c : Call) :
    Law P row₀ (step P s (.start i c)).1 := by
  have hread : ∀ c, finds c s.row = true → Law P row₀
      (if reads c s.row then
        ({ s with pending := s.pending.insert i (.loaded c s.row s.row) }, ())
      else (s.done c none, ())).1 := by
    intro c hfinds
    split_ifs with hreads
    · exact h.insert i ⟨hfinds, hreads⟩
    · exact h.done (run_of_not_reads hreads) fun h => by cases h
  rw [step.eq_def]
  dsimp only
  by_cases hpending : s.pending.contains i
  · rw [if_pos hpending]
    exact h
  · rw [if_neg hpending]
    cases c with
    | recallTraced scope now => exact hread (.recallTraced scope now) rfl
    | updateMemory args now => exact hread (.updateMemory args now) rfl
    | recordProcedureOutcome args now => exact hread (.recordProcedureOutcome args now) rfl
    | remember scope content now =>
      dsimp only
      split_ifs with hfinds
      · exact h.insert i hfinds
      · exact h.done (run_of_not_finds hfinds) fun h => by cases h
    | shareMemory args => exact h.done rfl fun _ => room_of_not rfl rfl
    | renameTag args => exact h.done rfl fun _ => room_of_not rfl rfl

theorem Law.load (h : Law P row₀ s) (i : ℕ) : Law P row₀ (step P s (.load i)).1 := by
  rw [step]
  split
  next c found hi =>
    split_ifs with hreads
    · exact h.insert i ⟨h.sound i _ hi, hreads⟩
    · exact (h.erase i).done (run_of_not_reads hreads) fun h => by cases h
  next => exact h

theorem Law.commit (h : Law P row₀ s) (i : ℕ) (hs : Harmless s (.commit i)) :
    Law P row₀ (step P s (.commit i)).1 := by
  rw [step]
  split
  next c found read hi =>
    obtain ⟨hfinds, hreads⟩ := h.sound i _ hi
    obtain ⟨hfresh, hroom⟩ := hs c found read hi
    exact (h.erase i).done (run_of_fresh hfinds hreads hfresh) fun _ => hroom
  next => exact h

theorem Law.step (h : Law P row₀ s) (e : Event) (he : Harmless s e) :
    Law P row₀ (step P s e).1 := by
  cases e with
  | start i c => exact h.start i c
  | load i => exact h.load i
  | commit i => exact h.commit i he

theorem Law.intact (h : Law P row₀ s) : Intact P row₀ s where
  serial := ⟨_, .refl _, h.ledger.serial⟩
  accesses := h.ledger.accesses
  outcomes := h.ledger.outcomes
  shared _ _ _ hlog hlater := h.ledger.shared hlog hlater

/-- **Where every write finds what its call read**, no update is lost. -/
theorem intact_of_fresh (P : Prims) (row₀ : MemoryNode) (events : List Event)
    (h : Run.Always (step P) (.init row₀) (fun _ s e => Harmless s e) events) :
    Intact P row₀ (Run.final (step P) (.init row₀) events) :=
  Law.intact <| Run.invariant (I := fun _ s => Law P row₀ s) Law.init
    (fun _ _ e hs he => hs.step e he) h

end Runs

/-! ### Two outcomes and a share -/

/-- Of these calls none asks the libraries. -/
def unasked : Prims := ⟨fun _ => 0, fun _ => 0, fun _ => 0, fun _ => 0, id⟩

/-- A shared procedure of an agent, without outcomes. -/
def shared : MemoryNode where
  id := "p"
  content := "restart the service"
  memoryType := .procedural
  layer := .cortex
  salience := 1 / 2
  tags := []
  agentId := some "ada"
  visibility := .shared
  threadId := none
  emotionalValence := none
  emotionalIntensity := 0
  createdAt := 0
  updatedAt := 0
  accessCount := 0
  accessTimes := []
  strength := ⟨1, 5, none⟩
  metadata := .object []

def succeeded (now : DateTime) : Call :=
  .recordProcedureOutcome (.object [("agent_id", .string "bob"), ("success", .bool true)]) now

def withdrawn : Call :=
  .shareMemory (.object [("agent_id", .string "ada"), ("target_agent_id", .string "ada")])

/-- Of two outcomes that are read before one is written, one is lost; and an outcome that was read
before makes the memory that is now private shared again. -/
theorem not_intact_crossed :
    (¬ Intact unasked shared (Run.final (step unasked) (.init shared)
      [.start 0 (succeeded 1), .start 1 (succeeded 2), .commit 0, .commit 1])) ∧
    ¬ Intact unasked shared (Run.final (step unasked) (.init shared)
      [.start 0 (succeeded 1), .start 1 withdrawn, .commit 0]) := by
  refine ⟨fun h => ?_, fun h => ?_⟩
  · have houtcomes := h.outcomes
    revert houtcomes
    decide +kernel
  · have hpriv := (h.shared [] _ [⟨succeeded 1, true⟩] rfl (by simp [succeeded,
      Call.namesVisibility])).1
    revert hpriv
    decide +kernel

/-- One after another, both outcomes count and the memory stays private. -/
theorem intact_of_fresh_shared : Intact unasked shared (Run.final (step unasked) (.init shared)
    [.start 0 (succeeded 1), .commit 0, .start 1 (succeeded 2), .commit 1,
      .start 2 withdrawn]) := by
  refine intact_of_fresh _ _ _ ?_
  simp only [Run.always_cons]
  refine ⟨trivial, fun c found read hread => ?_, trivial, fun c found read hread => ?_, trivial, ?_⟩
  · cases hread
    exact ⟨rfl, fun h => (by cases h), fun _ success => by cases success <;> decide +kernel⟩
  · cases hread
    exact ⟨rfl, fun h => (by cases h), fun _ success => by cases success <;> decide +kernel⟩
  · exact Run.Always.nil

end ApexOS.Cerebro.Interleaving

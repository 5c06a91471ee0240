import ApexOS.Agentd.Evolution
import ApexOS.Fabrica.Worker
import ApexOS.Lib.Numeral
import ApexOS.Lib.Run

/-!
# Rollback by id

What is left of an evolution, and who may undo it: `spawn_evolution_applier` and
`restore_rollback_store` of `agentd/crates/agentd/src/main.rs`, with the snapshots of
`evolution.rs` and the counter of the supervisor.

The id is taken from a counter of the process. The undo goes to a map in memory and, as text, to a
memory that is linked to an episode of the evolution; for a rewrite of a soul this is done before
the soul is touched. Some time after a start the episodes are listed and read, and what they hold
is put into the map that the applier uses meanwhile; the counter is set at the end of it. A rollback
takes its entry out of the map. The episode stays as it is.

The applier is one task, the restore another. What the calls of Cerebro answer, and whether one
that fails has taken effect, are inputs; so is which episodes are listed. Cerebro has episodes of
others too, under any title. That others link memories to an evolution's own episode is left out.

## Main definitions

* `undoStepLine`, `parseRollbackRecordFromText`, `completeLegacyRecord`, `healLegacyTarget`
* `Applier`, `step`: the applier, the restore, and the episodes
* `Watched`: and what was acknowledged last under each id
* `Undoes`: what is expected of one step
* `Orderly`: only what may still be undone is restored

## Main results

* `parseEvolutionIdFromTitle_title`: the id of an episode of an evolution
* `Law.step`: the invariant
* `undoes_of_orderly`: in every orderly run a rollback undoes what it names
* `not_undoes`: a second rollback, one of a rewrite that failed, one by another evolution's undo
-/

namespace ApexOS.Agentd.Rollback

open Evolution
open ApexOS.Fabrica (trim)

/-- `EvolutionId`. -/
abbrev EvolutionId := UInt64

/-! ### Titles -/

/-- The tag of a proposal. -/
def kind : EvolutionProposal → String
  | .registerMcpServer .. => "register_mcp_server"
  | .unregisterMcpServer .. => "unregister_mcp_server"
  | .updatePolicyRule .. => "update_policy_rule"
  | .updateSystemPrompt .. => "update_system_prompt"
  | .hotReloadSubsystem _ => "hot_reload_subsystem"
  | .requestHardware .. => "request_hardware"

/-- `u64::from_str`. -/
def parseU64 (s : String) : Option UInt64 :=
  let digits := match s.toList with
    | '+' :: digits => digits
    | digits => digits
  if digits ≠ [] ∧ digits.all Char.isDigit ∧ Nat.ofDigitChars 10 digits 0 < 2 ^ 64 then
    some (UInt64.ofNat (Nat.ofDigitChars 10 digits 0))
  else none

/-- What follows, for a string that starts so. -/
def stripPrefix (start s : String) : Option String :=
  if start.toList.isPrefixOf s.toList then
    some (String.ofList (s.toList.drop start.toList.length))
  else none

/-- The title of an evolution's episode. -/
def title (id : EvolutionId) (p : EvolutionProposal) : String :=
  "evolution " ++ Nat.repr id.toNat ++ ": " ++ kind p

/-- `parse_evolution_id_from_title`. -/
def parseEvolutionIdFromTitle (title : String) : Option EvolutionId := do
  let rest ← stripPrefix "evolution " title
  let colon ← rest.toList.idxOf? ':'
  parseU64 (trim (String.ofList (rest.toList.take colon)))

theorem parseU64_repr (n : UInt64) : parseU64 (Nat.repr n.toNat) = some n := by
  have hdigits : ∀ c ∈ Nat.toDigits 10 n.toNat, c.isDigit = true := fun c hc =>
    Nat.isDigit_of_mem_toDigits (by decide) (by decide) hc
  have hsign : (match Nat.toDigits 10 n.toNat with
      | '+' :: digits => digits
      | digits => digits) = Nat.toDigits 10 n.toNat := by
    split
    · rename_i digits heq
      have hplus := hdigits '+' (by rw [heq]; exact List.mem_cons_self)
      exact absurd hplus (by decide)
    · rfl
  simp only [parseU64, Nat.toList_repr, hsign, Nat.ofDigitChars_ten_toDigits]
  rw [if_pos ⟨Nat.toDigits_ne_nil, List.all_eq_true.mpr hdigits, n.toNat_lt⟩]
  simp

theorem isWhitespace_of_isDigit {c : Char} (hc : c.isDigit = true) : isWhitespace c = false := by
  simp only [Char.isDigit, Bool.and_eq_true, decide_eq_true_eq, UInt32.le_iff_toNat_le] at hc
  obtain ⟨hlow, hhigh⟩ := hc
  have hlow' : 48 ≤ c.toNat := hlow
  have hhigh' : c.toNat ≤ 57 := hhigh
  simp only [isWhitespace, Bool.or_eq_false_iff, Bool.and_eq_false_iff, decide_eq_false_iff_not,
    beq_eq_false_iff_ne]
  omega

theorem trim_repr (n : ℕ) : trim (Nat.repr n) = Nat.repr n := by
  have hall : ∀ l : List Char, (∀ c ∈ l, c.isDigit = true) → l.dropWhile isWhitespace = l := by
    intro l hl
    cases l with
    | nil => rfl
    | cons c l => rw [List.dropWhile_cons_of_neg
        (by simp [isWhitespace_of_isDigit (hl c List.mem_cons_self)])]
  have hdigits : ∀ c ∈ Nat.toDigits 10 n, c.isDigit = true := fun c hc =>
    Nat.isDigit_of_mem_toDigits (by decide) (by decide) hc
  rw [trim, Nat.toList_repr, hall _ hdigits,
    hall _ (fun c hc => hdigits c (List.mem_reverse.mp hc)), List.reverse_reverse,
    Nat.repr_eq_ofList_toDigits]

/-- **The id of an episode of an evolution** is read off its title. -/
theorem parseEvolutionIdFromTitle_title (id : EvolutionId) (p : EvolutionProposal) :
    parseEvolutionIdFromTitle (title id p) = some id := by
  have hcolon : ':' ∉ Nat.toDigits 10 id.toNat :=
    Numeral.notMem_toDigits (by decide) (by decide) _
  have hchars : (title id p).toList =
      "evolution ".toList ++ (Nat.toDigits 10 id.toNat ++ ':' :: ' ' :: (kind p).toList) := by
    simp [title, Nat.toList_repr]
  have hrest : stripPrefix "evolution " (title id p) =
      some (String.ofList (Nat.toDigits 10 id.toNat ++ ':' :: ' ' :: (kind p).toList)) := by
    rw [stripPrefix, hchars, if_pos (by simp), List.drop_left]
  have htake : (Nat.toDigits 10 id.toNat ++ ':' :: ' ' :: (kind p).toList).idxOf? ':' =
      some (Nat.toDigits 10 id.toNat).length := by
    rw [List.idxOf?, List.findIdx?_append, List.findIdx?_eq_none_iff.mpr]
    · simp [List.findIdx?_cons]
    · intro c hc
      simpa using fun heq : c = ':' => hcolon (heq ▸ hc)
  simp only [parseEvolutionIdFromTitle, hrest, Option.bind_eq_bind, Option.bind_some,
    String.toList_ofList, htake, List.take_left]
  rw [← Nat.repr_eq_ofList_toDigits, trim_repr, parseU64_repr]

/-! ### Snapshots -/

deriving instance DecidableEq for EvolutionProposal

/-- `RollbackRecord`. -/
structure RollbackRecord where
  undo : EvolutionProposal
  owner : String
  target : String
  deriving DecidableEq

/-- `GLOBAL_SOUL_TARGET`. -/
def globalSoulTarget : String := "global"

/-- The first of `s.lines()`. -/
def firstOfLines (s : String) : String :=
  let line := s.toList.takeWhile (· ≠ '\n')
  String.ofList (if line.length < s.toList.length ∧ line.getLast? = some '\r' then line.dropLast
    else line)

/-- `first_line`. -/
def firstLine (s : String) : String := trim (firstOfLines s)

/-- `encode_soul_target`. -/
def encodeSoulTarget : Option String → String
  | none => globalSoulTarget
  | some path => if firstOfLines path = "" then globalSoulTarget else firstOfLines path

/-- `decode_soul_target`. -/
def decodeSoulTarget (s : String) : Option String :=
  if trim s = "" ∨ trim s = globalSoulTarget then none else some (trim s)

/-- `rollback_authorized`. -/
def rollbackAuthorized (caller owner nodeAgent : String) : Bool :=
  if trim owner = "" then caller == nodeAgent
  else caller == trim owner || caller == nodeAgent

/-- What follows the first place where the marker stands. -/
def afterMarker (marker : List Char) : List Char → Option (List Char)
  | [] => if marker.isEmpty then some [] else none
  | c :: text =>
    if marker.isPrefixOf (c :: text) then some ((c :: text).drop marker.length)
    else afterMarker marker text

/-- `marker_line`. -/
def markerLine (text marker : String) : Option String :=
  (afterMarker marker.toList text.toList).map fun rest =>
    trim (String.ofList (rest.takeWhile (· ≠ '\n')))

/-- How a proposal is written as JSON, on one line, and read. -/
structure Serde where
  toString : EvolutionProposal → String
  fromStr : String → Option EvolutionProposal

variable (serde : Serde) (nodeAgent : String)

/-- `undo_step_line`. -/
def undoStepLine (summary : String) (rec : RollbackRecord) : String :=
  "evolution apply: " ++ summary ++ "\nundo_snapshot: " ++ serde.toString rec.undo ++
    "\nundo_owner: " ++ firstLine rec.owner ++ "\nundo_target: " ++ firstLine rec.target

/-- `parse_rollback_record_from_text`. -/
def parseRollbackRecordFromText (text : String) : Option RollbackRecord := do
  let raw ← markerLine text "undo_snapshot: "
  let undo ← serde.fromStr raw
  let owner := (markerLine text "undo_owner: ").getD ""
  let target := (markerLine text "undo_target: ").getD globalSoulTarget
  some ⟨undo, owner, target⟩

/-- A memory of an episode. -/
structure Memory where
  content : String
  agentId : Option String

/-- `parse_rollback_from_episode_memories`. -/
def parseRollbackFromEpisodeMemories (memories : List Memory) : Option RollbackRecord :=
  memories.findSome? fun m =>
    (parseRollbackRecordFromText serde m.content).map fun rec =>
      if rec.owner = "" then
        match (m.agentId.map trim).filter (· ≠ "") with
        | some agent => { rec with owner := agent }
        | none => rec
      else rec

/-- `complete_legacy_record`. -/
def completeLegacyRecord (rec : RollbackRecord) (episodeAgent : Option String) :
    RollbackRecord where
  undo := rec.undo
  owner := if trim rec.owner = "" then
      ((episodeAgent.map trim).filter (· ≠ "")).getD nodeAgent
    else rec.owner
  target := if trim rec.target = "" then globalSoulTarget else rec.target

/-- `UpdateSystemPrompt`. -/
def isSoulRewrite : EvolutionProposal → Bool
  | .updateSystemPrompt .. => true
  | _ => false

/-- `heal_legacy_target`, with the soul file that the owner now has. -/
def healLegacyTarget (rec : RollbackRecord) (soulFile : Option String) : RollbackRecord :=
  if isSoulRewrite rec.undo && (trim rec.target == "" || rec.target == globalSoulTarget) &&
      rec.owner != nodeAgent then
    match (soulFile.map trim).filter (· ≠ "") with
    | some path => { rec with target := path }
    | none => rec
  else rec

/-- An episode of Cerebro. -/
structure Episode where
  title : Option String
  agentId : Option String
  memories : List Memory

/-- What the restore makes of an episode: the id, and the record if there is one. -/
def Episode.evolutionId (e : Episode) : Option EvolutionId :=
  e.title.bind parseEvolutionIdFromTitle

def Episode.record (e : Episode) : Option RollbackRecord :=
  (parseRollbackFromEpisodeMemories serde e.memories).map
    (completeLegacyRecord nodeAgent · e.agentId)

/-! ### The applier -/

/-- How a call of Cerebro ends: well, or not, and then it may have taken effect. -/
inductive Answer
  | ok
  | error (took : Bool)

def Answer.took : Answer → Bool
  | .ok => true
  | .error took => took

/-- A proposal that the applier has taken up. -/
structure Proposed where
  id : EvolutionId
  proposal : EvolutionProposal
  agent : String
  record : Option RollbackRecord
  /-- what its snapshot starts with -/
  summary : String
  owner : ∀ rec ∈ record, rec.owner = agent

/-- Where the applier is. -/
inductive Job
  /-- a rewrite of a soul: its episode is to be started -/
  | opening (p : Proposed)
  /-- its snapshot is to be stored and linked -/
  | linking (p : Proposed) (episode : ℕ)
  /-- and read back -/
  | checking (p : Proposed) (episode : ℕ)
  | applying (p : Proposed) (episode : Option ℕ)
  /-- it has succeeded -/
  | acking (p : Proposed) (episode : Option ℕ)
  /-- any other proposal: its episode is to be started -/
  | starting (p : Proposed) (applied : Bool)
  | persisting (p : Proposed) (episode : ℕ)
  /-- the record is to be put into the map -/
  | noting (p : Proposed)
  | rolling (caller : String) (id : EvolutionId) (rec : RollbackRecord)
  /-- it has succeeded, and the record is to be taken out -/
  | removing (id : EvolutionId)

/-- Where the restore is: before the listing; at the episodes to come, with the highest id; with a
record that was read and is to be put into the map. -/
inductive Restore
  | waiting
  | walking (todo : List ℕ) (maxId : EvolutionId)
  | holding (todo : List ℕ) (maxId : EvolutionId) (episode : ℕ) (id : EvolutionId)
    (rec : RollbackRecord)
  | done

/-- The process, and the episodes of Cerebro, by number. -/
structure Applier where
  /-- `NEXT_EVOLUTION_ID` -/
  nextId : EvolutionId
  /-- on their way to the applier -/
  proposed : List (EvolutionId × EvolutionProposal)
  /-- `rollback_store` -/
  store : Table EvolutionId RollbackRecord
  job : Option Job
  restore : Restore
  episodes : List Episode

/-- A daemon starts. -/
def boot (episodes : List Episode) : Applier where
  nextId := 1
  proposed := []
  store := Table.empty
  job := none
  restore := .waiting
  episodes := episodes

inductive Event
  | propose (proposal : EvolutionProposal)
  /-- one of the proposals reaches the applier, with what it finds there -/
  | take (k : ℕ) (agent : String) (soul : Option String) (prior : Prior) (lintError : Bool)
  | episodeStart (a : Answer)
  /-- the snapshot is stored and linked -/
  | link (a : Answer)
  | readback (ok : Bool)
  | apply (ok : Bool) (summary : String)
  | ack
  | note
  | rollback (caller : String) (id : EvolutionId)
  /-- the undo is applied -/
  | rolled (ok : Bool)
  | remove
  /-- `list_episodes` -/
  | list (episodes : Option (List ℕ))
  /-- the memories of the next of them -/
  | read (ok : Bool)
  /-- what was read goes to the map, by the owner's soul file -/
  | insert (soulFile : Option String)
  | seed
  /-- an episode that is not the applier's -/
  | other (e : Episode)
  | restart

inductive Output
  | nothing
  | applied (id : EvolutionId)
  /-- what a rollback has applied, to which soul, and how that went -/
  | undone (caller : String) (id : EvolutionId) (undo : EvolutionProposal)
    (target : Option String) (ok : Bool)

namespace Applier

/-- A new episode for a proposal, if the call takes effect. -/
def startEpisode (s : Applier) (p : Proposed) (took : Bool) : Applier :=
  let added : List Episode :=
    if took then [⟨some (title p.id p.proposal), some p.agent, []⟩] else []
  { s with episodes := s.episodes ++ added }

/-- The memory of a snapshot is linked to an episode, if the call takes effect. -/
def addStep (s : Applier) (episode : ℕ) (summary : String) (rec : RollbackRecord) (took : Bool) :
    Applier :=
  let memory : Memory := ⟨undoStepLine serde summary rec, some rec.owner⟩
  { s with episodes := if took then
      s.episodes.modify episode fun e => { e with memories := e.memories ++ [memory] }
    else s.episodes }

/-- The applier takes up a proposal. A soul is not rewritten without a snapshot. -/
def take (s : Applier) (k : ℕ) (agent : String) (soul : Option String) (prior : Prior)
    (lintError : Bool) : Applier :=
  match s.job, s.proposed[k]? with
  | none, some (id, proposal) =>
    let s := { s with proposed := s.proposed.eraseIdx k }
    let record := (invert proposal prior).map fun undo => ⟨undo, agent, encodeSoulTarget soul⟩
    let p : Proposed := ⟨id, proposal, agent, record, "pre-apply rollback snapshot", by
      intro rec hrec
      obtain ⟨undo, -, rfl⟩ := Option.map_eq_some_iff.mp hrec
      rfl⟩
    if isSoulRewrite proposal then
      if lintError || record.isNone then s else { s with job := some (.opening p) }
    else { s with job := some (.applying p none) }
  | _, _ => s

/-- The steps of a proposal. -/
def episodeStart (s : Applier) (a : Answer) : Applier :=
  match s.job with
  | some (.opening p) =>
    { s.startEpisode p a.took with job := match a with
        | .ok => some (.linking p s.episodes.length)
        | .error _ => none }
  | some (.starting p applied) =>
    { s.startEpisode p a.took with job := match applied && p.record.isSome, a with
        | true, .ok => some (.persisting p s.episodes.length)
        | true, .error _ => some (.noting p)
        | false, _ => none }
  | _ => s

def link (s : Applier) (a : Answer) : Applier :=
  match s.job with
  | some (.linking p episode) =>
    match p.record with
    | some rec =>
      { s.addStep serde episode p.summary rec a.took with job := match a with
          | .ok => some (.checking p episode)
          | .error _ => none }
    | none => s
  | some (.persisting p episode) =>
    match p.record with
    | some rec =>
      { s.addStep serde episode p.summary rec a.took with job := some (.noting p) }
    | none => s
  | _ => s

/-- `snapshot_is_linked`: the memory is there, and parses. -/
def readback (s : Applier) (ok : Bool) : Applier :=
  match s.job with
  | some (.checking p episode) =>
    match p.record with
    | some rec =>
      if ok && (parseRollbackRecordFromText serde (undoStepLine serde p.summary rec)).isSome then
        { s with job := some (.applying p (some episode)) }
      else { s with job := none }
    | none => s
  | _ => s

def apply (s : Applier) (ok : Bool) (summary : String) : Applier :=
  match s.job with
  | some (.applying p (some episode)) =>
    { s with job := if ok then some (.acking p (some episode)) else none }
  | some (.applying p none) =>
    { s with job := if ok then some (.acking { p with summary } none)
      else some (.starting p false) }
  | _ => s

def ack (s : Applier) : Applier × Output :=
  match s.job with
  | some (.acking p (some _)) =>
    ({ s with job := if p.record.isSome then some (.noting p) else none }, .applied p.id)
  | some (.acking p none) => ({ s with job := some (.starting p true) }, .applied p.id)
  | _ => (s, .nothing)

def note (s : Applier) : Applier :=
  match s.job with
  | some (.noting p) =>
    match p.record with
    | some rec => { s with store := s.store.insert p.id rec, job := none }
    | none => { s with job := none }
  | _ => s

/-- A request is taken up: the record stays where it is. -/
def rollback (s : Applier) (caller : String) (id : EvolutionId) : Applier :=
  match s.job, s.store.get? id with
  | none, some rec =>
    if rollbackAuthorized caller rec.owner nodeAgent then
      { s with job := some (.rolling caller id rec) }
    else s
  | _, _ => s

def rolled (s : Applier) (ok : Bool) : Applier × Output :=
  match s.job with
  | some (.rolling caller id rec) =>
    ({ s with job := if ok then some (.removing id) else none },
      .undone caller id rec.undo (decodeSoulTarget rec.target) ok)
  | _ => (s, .nothing)

def remove (s : Applier) : Applier :=
  match s.job with
  | some (.removing id) => { s with store := s.store.erase id, job := none }
  | _ => s

/-- `list_episodes`, at most two hundred of them. -/
def list (s : Applier) (episodes : Option (List ℕ)) : Applier :=
  match s.restore with
  | .waiting =>
    { s with restore := match episodes with
        | some episodes => .walking (episodes.take 200) 0
        | none => .done }
  | _ => s

/-- The next episode: its id counts, whatever its memories hold. -/
def read (s : Applier) (ok : Bool) : Applier :=
  match s.restore with
  | .walking (episode :: todo) maxId =>
    match s.episodes[episode]? with
    | some e =>
      match e.evolutionId with
      | some id =>
        match if ok then e.record serde nodeAgent else none with
        | some rec => { s with restore := .holding todo (max maxId id) episode id rec }
        | none => { s with restore := .walking todo (max maxId id) }
      | none => { s with restore := .walking todo maxId }
    | none => { s with restore := .walking todo maxId }
  | _ => s

def insert (s : Applier) (soulFile : Option String) : Applier :=
  match s.restore with
  | .holding todo maxId _ id rec =>
    { s with
      store := s.store.insert id (healLegacyTarget nodeAgent rec soulFile)
      restore := .walking todo maxId }
  | _ => s

/-- `seed_evolution_id`. -/
def seed (s : Applier) : Applier :=
  match s.restore with
  | .walking [] maxId =>
    { s with
      nextId := if 0 < maxId then max s.nextId (maxId + 1) else s.nextId
      restore := .done }
  | _ => s

/-- One step. -/
def step (s : Applier) : Event → Applier × Output
  | .propose proposal =>
    ({ s with proposed := s.proposed ++ [(s.nextId, proposal)], nextId := s.nextId + 1 }, .nothing)
  | .take k agent soul prior lintError => (s.take k agent soul prior lintError, .nothing)
  | .episodeStart a => (s.episodeStart a, .nothing)
  | .link a => (s.link serde a, .nothing)
  | .readback ok => (s.readback serde ok, .nothing)
  | .apply ok summary => (s.apply ok summary, .nothing)
  | .ack => s.ack
  | .note => (s.note, .nothing)
  | .rollback caller id => (s.rollback nodeAgent caller id, .nothing)
  | .rolled ok => s.rolled ok
  | .remove => (s.remove, .nothing)
  | .list episodes => (s.list episodes, .nothing)
  | .read ok => (s.read serde nodeAgent ok, .nothing)
  | .insert soulFile => (s.insert nodeAgent soulFile, .nothing)
  | .seed => (s.seed, .nothing)
  | .other e => ({ s with episodes := s.episodes ++ [e] }, .nothing)
  | .restart => (boot s.episodes, .nothing)

end Applier

/-! ### What is expected -/

/-- An evolution that was acknowledged. -/
structure Acked where
  record : Option RollbackRecord
  summary : String
  /-- where its snapshot is -/
  episode : Option ℕ
  rolledBack : Bool
  deriving DecidableEq

/-- The applier, and the last evolution acknowledged under each id. -/
structure Watched where
  applier : Applier
  acked : Table EvolutionId Acked

namespace Watched

/-- On any episodes, nothing of which was acknowledged. -/
def start (episodes : List Episode) : Watched := ⟨boot episodes, Table.empty⟩

/-- What a step says of the evolutions. -/
def observe (w : Watched) : Event → Table EvolutionId Acked
  | .ack =>
    match w.applier.job with
    | some (.acking p episode) => w.acked.insert p.id ⟨p.record, p.summary, episode, false⟩
    | _ => w.acked
  | .link a =>
    match w.applier.job with
    | some (.persisting p episode) =>
      if a.took then w.acked.modify p.id fun x => { x with episode := some episode } else w.acked
    | _ => w.acked
  | .rolled true =>
    match w.applier.job with
    | some (.rolling _ id _) => w.acked.modify id fun x => { x with rolledBack := true }
    | _ => w.acked
  | _ => w.acked

def step (w : Watched) (e : Event) : Watched × Output :=
  (⟨(w.applier.step serde nodeAgent e).1, w.observe e⟩, (w.applier.step serde nodeAgent e).2)

end Watched

/-- **What is expected of a step.** -/
structure Undoes (w : Watched) (e : Event) : Prop where
  /-- a rollback applies the undo of the last evolution acknowledged under the id, to its target,
  for its owner or the node's agent, and not again; if it fails, the snapshot stays -/
  applies : ∀ caller id undo target ok,
    (w.step serde nodeAgent e).2 = .undone caller id undo target ok →
      ∃ a rec, w.acked.get? id = some a ∧ a.record = some rec ∧ a.rolledBack = false ∧
        undo = rec.undo ∧ target = decodeSoulTarget rec.target ∧
        rollbackAuthorized caller rec.owner nodeAgent = true ∧
        (ok = false → (w.step serde nodeAgent e).1.applier.store.get? id = some rec)
  /-- an undo leaves the map only with its rollback, or with the process -/
  kept : ∀ id a rec, w.acked.get? id = some a → a.record = some rec →
    w.applier.store.get? id = some rec → w.applier.job ≠ some (.removing id) →
      e ≠ .restart → (w.step serde nodeAgent e).1.applier.store.get? id = some rec

/-- What an evolution's snapshot is restored as is its record, by its owner's soul file. -/
def Legible (a : Acked) (soulFile : Option String) : Prop :=
  ∀ rec ∈ a.record, ((Episode.mk none (some rec.owner)
    [⟨undoStepLine serde a.summary rec, some rec.owner⟩]).record serde nodeAgent).map
      (healLegacyTarget nodeAgent · soulFile) = some rec

/-- Only what may still be undone is restored: the episode is that of the last evolution
acknowledged under an id, which was not rolled back, and what is restored is its record. And an
evolution that cannot be undone is not acknowledged under an id for which there is an undo. -/
def Orderly (w : Watched) : Event → Prop
  | .ack => ∀ p episode, w.applier.job = some (.acking p episode) → p.record = none →
    w.applier.store.get? p.id = none
  | .insert soulFile => ∀ todo maxId episode id rec,
    w.applier.restore = .holding todo maxId episode id rec →
      ∃ id' a, w.acked.get? id' = some a ∧ a.episode = some episode ∧ a.rolledBack = false ∧
        Legible serde nodeAgent a soulFile
  | _ => True

/-! ### The invariant -/

section Law

namespace Watched

/-- The episode of an evolution, with its snapshot. -/
def Written (w : Watched) (episode : ℕ) (id : EvolutionId) (summary : String)
    (rec : RollbackRecord) : Prop :=
  ∃ proposal, w.applier.episodes[episode]? = some ⟨some (title id proposal), some rec.owner,
    [⟨undoStepLine serde summary rec, some rec.owner⟩]⟩

/-- And without it. -/
def Opened (w : Watched) (episode : ℕ) (p : Proposed) : Prop :=
  w.applier.episodes[episode]? = some ⟨some (title p.id p.proposal), some p.agent, []⟩

/-- What the applier is about. -/
def Fits (w : Watched) : Job → Prop
  | .opening p => p.record.isSome = true
  | .linking p episode => p.record.isSome = true ∧ w.Opened episode p
  | .checking p episode => ∃ rec, p.record = some rec ∧ w.Written serde episode p.id p.summary rec
  | .applying p episode | .acking p episode => ∀ r ∈ episode, ∃ rec, p.record = some rec ∧
    w.Written serde r p.id p.summary rec
  | .starting p applied => applied = true →
    w.acked.get? p.id = some ⟨p.record, p.summary, none, false⟩
  | .persisting p episode => p.record.isSome = true ∧ w.Opened episode p ∧
    w.acked.get? p.id = some ⟨p.record, p.summary, none, false⟩
  | .noting p => p.record.isSome = true ∧
    ∃ episode, w.acked.get? p.id = some ⟨p.record, p.summary, episode, false⟩
  | .rolling caller id rec => rollbackAuthorized caller rec.owner nodeAgent = true ∧
    w.applier.store.get? id = some rec ∧
    ∃ a, w.acked.get? id = some a ∧ a.record = some rec ∧ a.rolledBack = false
  | .removing _ => True

/-- An evolution was acknowledged, and its undo is not in the map yet. -/
def Due (w : Watched) (id : EvolutionId) : Prop :=
  ∃ p, p.id = id ∧ p.record.isSome = true ∧ (w.applier.job = some (.starting p true) ∨
    (∃ episode, w.applier.job = some (.persisting p episode)) ∨ w.applier.job = some (.noting p))

end Watched

/-- **The invariant.** -/
structure Law (w : Watched) : Prop where
  /-- the map has the undo of the last evolution acknowledged under the id, not rolled back -/
  store : ∀ id rec, w.applier.store.get? id = some rec → ¬ w.Due id →
    w.applier.job ≠ some (.removing id) →
      ∃ a, w.acked.get? id = some a ∧ a.record = some rec ∧ a.rolledBack = false
  written : ∀ id a episode, w.acked.get? id = some a → a.episode = some episode →
    ∃ rec, a.record = some rec ∧ w.Written serde episode id a.summary rec
  job : ∀ j ∈ w.applier.job, w.Fits serde nodeAgent j
  /-- what the restore holds was read from the episode -/
  holding : ∀ todo maxId episode id rec,
    w.applier.restore = .holding todo maxId episode id rec →
      ∃ e, w.applier.episodes[episode]? = some e ∧ e.evolutionId = some id ∧
        e.record serde nodeAgent = some rec

variable {serde nodeAgent} {w w' : Watched}

theorem law_start (episodes : List Episode) : Law serde nodeAgent (Watched.start episodes) where
  store _ _ h := nomatch h
  written _ _ _ h := nomatch h
  job _ h := nomatch h
  holding _ _ _ _ _ h := nomatch h

/-- An episode that has a memory stays as it is. -/
def Keeps (w w' : Watched) : Prop :=
  ∀ (episode : ℕ) (e : Episode), w.applier.episodes[episode]? = some e → e.memories ≠ [] →
    w'.applier.episodes[episode]? = some e

/-- There may be more of them. -/
def Grows (w w' : Watched) : Prop :=
  ∃ added, w'.applier.episodes = w.applier.episodes ++ added

theorem Grows.getElem? (h : Grows w w') {episode : ℕ} {e : Episode}
    (he : w.applier.episodes[episode]? = some e) : w'.applier.episodes[episode]? = some e := by
  obtain ⟨added, hadded⟩ := h
  rw [hadded, List.getElem?_append_left (List.getElem?_eq_some_iff.mp he).1]
  exact he

theorem Grows.keeps (h : Grows w w') : Keeps w w' := fun _ _ he _ => h.getElem? he

theorem grows_of_eq (h : w'.applier.episodes = w.applier.episodes) : Grows w w' :=
  ⟨[], by rw [h, List.append_nil]⟩

theorem grows_append {added : List Episode}
    (h : w'.applier.episodes = w.applier.episodes ++ added) : Grows w w' := ⟨added, h⟩

theorem Watched.Written.mono {episode : ℕ} {id : EvolutionId} {summary : String}
    {rec : RollbackRecord} (h : w.Written serde episode id summary rec) (hkeeps : Keeps w w') :
    w'.Written serde episode id summary rec := by
  obtain ⟨proposal, he⟩ := h
  exact ⟨proposal, hkeeps _ _ he (List.cons_ne_nil _ _)⟩

theorem Watched.Fits.mono {j : Job} (h : w.Fits serde nodeAgent j) (hgrows : Grows w w')
    (hacked : w'.acked = w.acked)
    (hstore : ∀ caller id rec, j = .rolling caller id rec →
      w.applier.store.get? id = some rec → w'.applier.store.get? id = some rec) :
    w'.Fits serde nodeAgent j := by
  cases j with
  | opening p => exact h
  | linking p episode => exact ⟨h.1, hgrows.getElem? h.2⟩
  | checking p episode =>
    obtain ⟨rec, hrec, hw⟩ := h
    exact ⟨rec, hrec, hw.mono hgrows.keeps⟩
  | applying p episode | acking p episode =>
    intro r hr
    obtain ⟨rec, hrec, hw⟩ := h r hr
    exact ⟨rec, hrec, hw.mono hgrows.keeps⟩
  | starting p applied =>
    intro happlied
    rw [hacked]
    exact h happlied
  | persisting p episode => exact ⟨h.1, hgrows.getElem? h.2.1, hacked ▸ h.2.2⟩
  | noting p => exact ⟨h.1, hacked ▸ h.2⟩
  | rolling caller id rec => exact ⟨h.1, hstore caller id rec rfl h.2.1, hacked ▸ h.2.2⟩
  | removing id => trivial

theorem Episode.memories_ne_nil {e : Episode} {rec : RollbackRecord}
    (h : e.record serde nodeAgent = some rec) : e.memories ≠ [] := by
  intro hnil
  simp [Episode.record, parseRollbackFromEpisodeMemories, hnil] at h

/-- A step that changes neither map: the applier goes on, and there may be more episodes. -/
theorem Law.go (h : Law serde nodeAgent w) (hkeeps : Keeps w w') (hacked : w'.acked = w.acked)
    (hstore : w'.applier.store = w.applier.store)
    (hrestore : ∀ todo maxId episode id rec,
      w'.applier.restore = .holding todo maxId episode id rec →
        w.applier.restore = .holding todo maxId episode id rec)
    (hdue : ∀ id, w.Due id → w'.Due id)
    (hremoving : ∀ id, w.applier.job = some (.removing id) → w'.applier.job = some (.removing id))
    (hjob : ∀ j ∈ w'.applier.job, w'.Fits serde nodeAgent j) : Law serde nodeAgent w' where
  store id rec hget hnot hjob' := by
    rw [hstore] at hget
    rw [hacked]
    exact h.store id rec hget (fun hd => hnot (hdue id hd)) (fun hr => hjob' (hremoving id hr))
  written id a episode ha he := by
    rw [hacked] at ha
    obtain ⟨rec, hrec, hw⟩ := h.written id a episode ha he
    exact ⟨rec, hrec, hw.mono hkeeps⟩
  job := hjob
  holding todo maxId episode id rec hr := by
    obtain ⟨e, he, hid, hrec⟩ := h.holding _ _ _ _ _ (hrestore _ _ _ _ _ hr)
    exact ⟨e, hkeeps _ _ he (Episode.memories_ne_nil hrec), hid, hrec⟩

/-- The applier stays where it is. -/
theorem Law.stay (h : Law serde nodeAgent w) (hgrows : Grows w w') (hacked : w'.acked = w.acked)
    (hstore : w'.applier.store = w.applier.store)
    (hrestore : ∀ todo maxId episode id rec,
      w'.applier.restore = .holding todo maxId episode id rec →
        w.applier.restore = .holding todo maxId episode id rec)
    (hjob : w'.applier.job = w.applier.job) : Law serde nodeAgent w' := by
  refine h.go hgrows.keeps hacked hstore hrestore (fun id hd => ?_) (fun id hr => hjob.trans hr) ?_
  · obtain ⟨p, hp, hrec, hd⟩ := hd
    exact ⟨p, hp, hrec, by rwa [hjob]⟩
  · intro j hj
    rw [hjob] at hj
    exact (h.job j hj).mono hgrows hacked fun _ _ _ _ hget => hstore ▸ hget

/-- Nothing is due, and nothing to be taken out, while the applier is at something else. -/
theorem Watched.not_due {job : Option Job} (hjob : w.applier.job = job)
    (hbusy : ∀ p, job ≠ some (.starting p true) ∧ (∀ episode, job ≠ some (.persisting p episode)) ∧
      job ≠ some (.noting p)) (id : EvolutionId) : ¬ w.Due id := by
  rintro ⟨p, -, -, hd | ⟨episode, hd⟩ | hd⟩
  · exact (hbusy p).1 (hjob.symm.trans hd)
  · exact (hbusy p).2.1 episode (hjob.symm.trans hd)
  · exact (hbusy p).2.2 (hjob.symm.trans hd)

/-- The applier goes on, from where nothing is due. -/
theorem Law.go_on (h : Law serde nodeAgent w) {job : Option Job} (hjob : w.applier.job = job)
    (hbusy : ∀ p, job ≠ some (.starting p true) ∧ (∀ episode, job ≠ some (.persisting p episode)) ∧
      job ≠ some (.noting p)) (hremoving : ∀ id, job ≠ some (.removing id))
    (hkeeps : Keeps w w') (hacked : w'.acked = w.acked)
    (hsame : w'.applier.store = w.applier.store ∧ w'.applier.restore = w.applier.restore)
    (hfits : ∀ j ∈ w'.applier.job, w'.Fits serde nodeAgent j) : Law serde nodeAgent w' :=
  h.go hkeeps hacked hsame.1 (fun _ _ _ _ _ hr => hsame.2 ▸ hr)
    (fun id hd => absurd hd (Watched.not_due hjob hbusy id))
    (fun id hr => absurd (hjob.symm.trans hr) (hremoving id)) hfits

theorem Law.take (h : Law serde nodeAgent w) (k : ℕ) (agent : String) (soul : Option String)
    (prior : Prior) (lintError : Bool) :
    Law serde nodeAgent ⟨w.applier.take k agent soul prior lintError, w.acked⟩ := by
  unfold Applier.take
  split
  swap
  · exact h
  rename_i id proposal hjob _
  dsimp only
  split
  · split
    · exact h.stay (grows_of_eq rfl) rfl rfl (fun _ _ _ _ _ hr => hr) rfl
    · rename_i hrecord
      refine h.go_on hjob (by simp) (by simp) (grows_of_eq rfl).keeps rfl ⟨rfl, rfl⟩ ?_
      rintro j ⟨⟩
      simp only [Bool.or_eq_true, not_or, Bool.not_eq_true, Option.isNone_eq_false_iff] at hrecord
      exact hrecord.2
  · refine h.go_on hjob (by simp) (by simp) (grows_of_eq rfl).keeps rfl ⟨rfl, rfl⟩ ?_
    rintro j ⟨⟩ r ⟨⟩

theorem Law.episodeStart (h : Law serde nodeAgent w) (a : Answer) :
    Law serde nodeAgent ⟨w.applier.episodeStart a, w.acked⟩ := by
  unfold Applier.episodeStart
  split
  · rename_i p hjob
    have hfits := h.job _ hjob
    refine h.go_on hjob (by simp) (by simp) (grows_append rfl).keeps rfl ⟨rfl, rfl⟩ ?_
    cases a with
    | ok =>
      rintro j ⟨⟩
      exact ⟨hfits, by simp [Watched.Opened, Applier.startEpisode, Answer.took]⟩
    | error took => rintro j ⟨⟩
  · rename_i p applied hjob
    have hfits := h.job _ hjob
    refine h.go (grows_append rfl).keeps rfl rfl (fun _ _ _ _ _ hr => hr) (fun id hd => ?_)
      (fun id hr => by simp [hjob] at hr) ?_
    · obtain ⟨q, hq, hrec, hd | ⟨episode, hd⟩ | hd⟩ := hd
      · obtain ⟨rfl, rfl⟩ : p = q ∧ applied = true := by simpa [hjob] using hd
        refine ⟨p, hq, hrec, ?_⟩
        cases a <;> simp [hrec]
      · simp [hjob] at hd
      · simp [hjob] at hd
    · cases hdo : applied && p.record.isSome with
      | false => rintro j ⟨⟩
      | true =>
        obtain ⟨rfl, hrec⟩ := Bool.and_eq_true_iff.mp hdo
        cases a with
        | ok =>
          rintro j ⟨⟩
          exact ⟨hrec, by simp [Watched.Opened, Applier.startEpisode, Answer.took], hfits rfl⟩
        | error took =>
          rintro j ⟨⟩
          exact ⟨hrec, none, hfits rfl⟩
  · exact h

/-- The snapshot goes to an episode that was started for it. -/
theorem Watched.Opened.keeps_addStep {p : Proposed} {episode : ℕ} (h : w.Opened episode p)
    {rec : RollbackRecord} {took : Bool}
    (hw' : w'.applier.episodes = (w.applier.addStep serde episode p.summary rec took).episodes) :
    Keeps w w' := by
  intro r e he hmem
  rw [hw']
  cases took with
  | false => exact he
  | true =>
    have hne : r ≠ episode := by
      rintro rfl
      obtain rfl := Option.some.inj (he.symm.trans h)
      exact hmem rfl
    simp [Applier.addStep, Ne.symm hne, he]

theorem Watched.Opened.written {p : Proposed} {episode : ℕ} (h : w.Opened episode p)
    {rec : RollbackRecord} (hrec : p.record = some rec)
    (hw' : w'.applier.episodes = (w.applier.addStep serde episode p.summary rec true).episodes) :
    w'.Written serde episode p.id p.summary rec := by
  refine ⟨p.proposal, ?_⟩
  have hget :
    w.applier.episodes[episode]? = some ⟨some (title p.id p.proposal), some p.agent, []⟩ := h
  rw [hw', p.owner rec hrec]
  simp [Applier.addStep, hget, p.owner rec hrec]

/-- The snapshot of an evolution that was acknowledged is in its episode. -/
theorem Law.linked (h : Law serde nodeAgent w) {p : Proposed} {episode : ℕ} {rec : RollbackRecord}
    (hjob : w.applier.job = some (.noting p)) (hrec : p.record = some rec)
    (hwritten : w.Written serde episode p.id p.summary rec) :
    Law serde nodeAgent
      ⟨w.applier, w.acked.modify p.id fun x => { x with episode := some episode }⟩ := by
  obtain ⟨hsome, episode', hget⟩ := h.job _ hjob
  refine ⟨fun id rec' hstore hdue hremoving => ?_, fun id a r ha hr => ?_, fun j hj => ?_,
    h.holding⟩
  · obtain ⟨a, ha, hrec', hnot⟩ := h.store id rec' hstore hdue hremoving
    rw [Table.get?_modify]
    split
    · exact ⟨{ a with episode := some episode }, by rw [ha]; rfl, hrec', hnot⟩
    · exact ⟨a, ha, hrec', hnot⟩
  · rw [Table.get?_modify] at ha
    split at ha
    · rename_i heq
      rw [heq, hget] at ha
      cases ha
      cases hr
      exact ⟨rec, hrec, heq ▸ hwritten⟩
    · exact h.written id a r ha hr
  · obtain rfl := Option.some.inj (hjob.symm.trans hj)
    exact ⟨hsome, some episode, by rw [Table.get?_modify_self, hget]; rfl⟩

theorem Law.link (h : Law serde nodeAgent w) (a : Answer) :
    Law serde nodeAgent ⟨w.applier.link serde a, w.observe (.link a)⟩ := by
  unfold Applier.link
  dsimp only [Watched.observe]
  split
  · rename_i p episode hjob
    obtain ⟨hsome, hopened⟩ := h.job _ hjob
    obtain ⟨rec, hrec⟩ := Option.isSome_iff_exists.mp hsome
    simp only [hrec, hjob]
    refine h.go_on hjob (by simp) (by simp) (hopened.keeps_addStep rfl) rfl ⟨rfl, rfl⟩ ?_
    cases a with
    | ok =>
      rintro j ⟨⟩
      exact ⟨rec, hrec, hopened.written hrec rfl⟩
    | error took => rintro j ⟨⟩
  · rename_i p episode hjob
    obtain ⟨hsome, hopened, hacked⟩ := h.job _ hjob
    obtain ⟨rec, hrec⟩ := Option.isSome_iff_exists.mp hsome
    simp only [hrec, hjob]
    have hnoting (took : Bool) : Law serde nodeAgent
        ⟨{ w.applier.addStep serde episode p.summary rec took with job := some (.noting p) },
          w.acked⟩ := by
      refine h.go (hopened.keeps_addStep rfl) rfl rfl (fun _ _ _ _ _ hr => hr) (fun id hd => ?_)
        (fun id hr => by simp [hjob] at hr) ?_
      · obtain ⟨q, hq, hqrec, hd | ⟨r, hd⟩ | hd⟩ := hd
        · simp [hjob] at hd
        · obtain ⟨rfl, -⟩ : p = q ∧ episode = r := by simpa [hjob] using hd
          exact ⟨p, hq, hqrec, .inr (.inr rfl)⟩
        · simp [hjob] at hd
      · rintro j ⟨⟩
        exact ⟨hsome, none, hacked⟩
    cases htook : a.took with
    | false => exact hnoting false
    | true => exact (hnoting true).linked rfl hrec (hopened.written hrec rfl)
  · rename_i hlinking hpersisting
    split
    · exact absurd ‹_› (hpersisting _ _)
    · exact h

theorem Law.readback (h : Law serde nodeAgent w) (ok : Bool) :
    Law serde nodeAgent ⟨w.applier.readback serde ok, w.acked⟩ := by
  unfold Applier.readback
  split
  · rename_i p episode hjob
    obtain ⟨rec, hrec, hwritten⟩ := h.job _ hjob
    simp only [hrec]
    split
    · refine h.go_on hjob (by simp) (by simp) (grows_of_eq rfl).keeps rfl ⟨rfl, rfl⟩ ?_
      rintro j ⟨⟩ r ⟨⟩
      exact ⟨rec, hrec, hwritten⟩
    · refine h.go_on hjob (by simp) (by simp) (grows_of_eq rfl).keeps rfl ⟨rfl, rfl⟩ ?_
      rintro j ⟨⟩
  · exact h

theorem Law.apply (h : Law serde nodeAgent w) (ok : Bool) (summary : String) :
    Law serde nodeAgent ⟨w.applier.apply ok summary, w.acked⟩ := by
  unfold Applier.apply
  split
  · rename_i p episode hjob
    refine h.go_on hjob (by simp) (by simp) (grows_of_eq rfl).keeps rfl ⟨rfl, rfl⟩ ?_
    cases ok with
    | true =>
      rintro j ⟨⟩ r hr
      exact h.job _ hjob r hr
    | false => rintro j ⟨⟩
  · rename_i p hjob
    refine h.go_on hjob (by simp) (by simp) (grows_of_eq rfl).keeps rfl ⟨rfl, rfl⟩ ?_
    cases ok with
    | true => rintro j ⟨⟩ r ⟨⟩
    | false => rintro j ⟨⟩ ⟨⟩
  · exact h

/-- An evolution is acknowledged: from now on it is the last one under its id. -/
theorem Law.acknowledged (h : Law serde nodeAgent w) {p : Proposed} {episode : Option ℕ}
    (hjob : w.applier.job = some (.acking p episode))
    (hnone : p.record = none → w.applier.store.get? p.id = none) {job : Option Job}
    (hdue : p.record.isSome = true → job = some (.starting p true) ∨ job = some (.noting p))
    (hfits : ∀ j ∈ job, Watched.Fits serde nodeAgent ⟨{ w.applier with job },
      w.acked.insert p.id ⟨p.record, p.summary, episode, false⟩⟩ j) :
    Law serde nodeAgent ⟨{ w.applier with job },
      w.acked.insert p.id ⟨p.record, p.summary, episode, false⟩⟩ := by
  refine ⟨fun id rec hstore hnot _ => ?_, fun id a r ha hr => ?_, hfits, h.holding⟩
  · by_cases heq : id = p.id
    · subst heq
      cases hrec : p.record with
      | none =>
        have hget : w.applier.store.get? p.id = some rec := hstore
        rw [hnone hrec] at hget
        cases hget
      | some rec' =>
        have hsome : p.record.isSome = true := by rw [hrec]; rfl
        refine absurd ⟨p, rfl, hsome, ?_⟩ hnot
        exact (hdue hsome).imp_right .inr
    · rw [Table.get?_insert, if_neg heq]
      exact h.store id rec hstore (Watched.not_due hjob (by simp) id) (by simp [hjob])
  · rw [Table.get?_insert] at ha
    split at ha
    · rename_i heq
      cases ha
      rw [heq]
      exact h.job _ hjob r hr
    · exact h.written id a r ha hr

theorem Law.ack (h : Law serde nodeAgent w) (ho : Orderly serde nodeAgent w .ack) :
    Law serde nodeAgent (w.step serde nodeAgent .ack).1 := by
  dsimp only [Watched.step, Applier.step, Watched.observe, Applier.ack]
  split
  · rename_i p episode hjob
    obtain ⟨rec, hrec, -⟩ := h.job _ hjob episode rfl
    simp only [hjob, hrec, Option.isSome_some, if_true]
    rw [← hrec]
    refine h.acknowledged hjob (fun hn => by simp [hrec] at hn) (fun _ => .inr rfl) ?_
    rintro j ⟨⟩
    exact ⟨by rw [hrec]; rfl, some episode, by rw [Table.get?_insert, if_pos rfl]⟩
  · rename_i p hjob
    simp only [hjob]
    refine h.acknowledged hjob (ho p none hjob) (fun _ => .inl rfl) ?_
    rintro j ⟨⟩ -
    rw [Table.get?_insert, if_pos rfl]
  · rename_i hsoul hother
    split
    · rename_i p episode hjob
      cases episode with
      | none => exact absurd hjob (hother p)
      | some episode => exact absurd hjob (hsoul p episode)
    · exact h

theorem Law.note (h : Law serde nodeAgent w) :
    Law serde nodeAgent ⟨w.applier.note, w.acked⟩ := by
  unfold Applier.note
  split
  swap
  · exact h
  rename_i p hjob
  obtain ⟨hsome, episode, hget⟩ := h.job _ hjob
  obtain ⟨rec, hrec⟩ := Option.isSome_iff_exists.mp hsome
  simp only [hrec]
  refine ⟨fun id rec' hstore hdue _ => ?_, h.written, (fun j hj => nomatch hj), h.holding⟩
  rw [Table.get?_insert] at hstore
  split at hstore
  · rename_i heq
    cases hstore
    exact ⟨_, heq ▸ hget, hrec, rfl⟩
  · rename_i hne
    refine h.store id rec' hstore ?_ (by simp [hjob])
    rintro ⟨q, hq, -, hd | ⟨r, hd⟩ | hd⟩
    · simp [hjob] at hd
    · simp [hjob] at hd
    · obtain rfl : p = q := by simpa [hjob] using hd
      exact hne hq.symm

theorem Law.rollback (h : Law serde nodeAgent w) (caller : String) (id : EvolutionId) :
    Law serde nodeAgent ⟨w.applier.rollback nodeAgent caller id, w.acked⟩ := by
  unfold Applier.rollback
  split
  swap
  · exact h
  rename_i rec hjob hget
  split
  · rename_i hauthorized
    refine h.go_on hjob (by simp) (by simp) (grows_of_eq rfl).keeps rfl ⟨rfl, rfl⟩ ?_
    rintro j ⟨⟩
    exact ⟨hauthorized, hget,
      h.store id rec hget (Watched.not_due hjob (by simp) id) (by simp [hjob])⟩
  · exact h

/-- An undo was applied. -/
theorem Law.undone (h : Law serde nodeAgent w) {caller : String} {id : EvolutionId}
    {rec : RollbackRecord} (hjob : w.applier.job = some (.rolling caller id rec)) :
    Law serde nodeAgent ⟨{ w.applier with job := some (.removing id) },
      w.acked.modify id fun x => { x with rolledBack := true }⟩ := by
  refine ⟨fun id' rec' hstore _ hremoving => ?_, fun id' a r ha hr => ?_, ?_, h.holding⟩
  · have hne : id' ≠ id := fun heq => hremoving (by rw [heq])
    rw [Table.get?_modify_of_ne hne]
    exact h.store id' rec' hstore (Watched.not_due hjob (by simp) id') (by simp [hjob])
  · rw [Table.get?_modify] at ha
    split at ha
    · obtain ⟨a', ha', rfl⟩ := Option.map_eq_some_iff.mp ha
      exact h.written id' a' r ha' hr
    · exact h.written id' a r ha hr
  · rintro j ⟨⟩
    trivial

theorem Law.rolled (h : Law serde nodeAgent w) (ok : Bool) :
    Law serde nodeAgent (w.step serde nodeAgent (.rolled ok)).1 := by
  dsimp only [Watched.step, Applier.step, Applier.rolled]
  split
  · rename_i caller id rec hjob
    cases ok with
    | true =>
      dsimp only [Watched.observe]
      rw [hjob]
      exact h.undone hjob
    | false =>
      refine h.go_on hjob (by simp) (by simp) (grows_of_eq rfl).keeps rfl ⟨rfl, rfl⟩ ?_
      rintro j ⟨⟩
  · rename_i hother
    cases ok with
    | true =>
      dsimp only [Watched.observe]
      split
      · exact absurd ‹_› (hother _ _ _)
      · exact h
    | false => exact h

theorem Law.remove (h : Law serde nodeAgent w) :
    Law serde nodeAgent ⟨w.applier.remove, w.acked⟩ := by
  unfold Applier.remove
  split
  swap
  · exact h
  rename_i id hjob
  refine ⟨fun id' rec hstore _ _ => ?_, h.written, (fun j hj => nomatch hj), h.holding⟩
  rw [Table.get?_erase] at hstore
  split at hstore
  · cases hstore
  · rename_i hne
    refine h.store id' rec hstore (Watched.not_due hjob (by simp) id') ?_
    rw [hjob]
    rintro ⟨⟩
    exact hne rfl

/-- A step of the restore that changes no map. -/
theorem Law.restoring (h : Law serde nodeAgent w) {restore : Restore}
    (hholding : ∀ todo maxId episode id rec, restore = .holding todo maxId episode id rec →
      ∃ e, w.applier.episodes[episode]? = some e ∧ e.evolutionId = some id ∧
        e.record serde nodeAgent = some rec) :
    Law serde nodeAgent ⟨{ w.applier with restore }, w.acked⟩ where
  store := h.store
  written := h.written
  job j hj := (h.job j hj).mono (grows_of_eq rfl) rfl fun _ _ _ _ hget => hget
  holding := hholding

theorem Law.list (h : Law serde nodeAgent w) (episodes : Option (List ℕ)) :
    Law serde nodeAgent ⟨w.applier.list episodes, w.acked⟩ := by
  unfold Applier.list
  split
  · refine h.restoring fun todo maxId episode id rec hr => ?_
    cases episodes <;> cases hr
  · exact h

theorem Law.read (h : Law serde nodeAgent w) (ok : Bool) :
    Law serde nodeAgent ⟨w.applier.read serde nodeAgent ok, w.acked⟩ := by
  unfold Applier.read
  split
  swap
  · exact h
  rename_i episode todo maxId hrestore
  split
  swap
  · exact h.restoring fun _ _ _ _ _ hr => by cases hr
  rename_i e he
  split
  swap
  · exact h.restoring fun _ _ _ _ _ hr => by cases hr
  rename_i id hid
  split
  swap
  · exact h.restoring fun _ _ _ _ _ hr => by cases hr
  rename_i rec hrec
  refine h.restoring fun _ _ _ _ _ hr => ?_
  cases hr
  cases ok with
  | true => exact ⟨e, he, hid, hrec⟩
  | false => cases hrec

/-- What an orderly restore puts into the map is what is expected there. -/
theorem Law.healed (h : Law serde nodeAgent w) {soulFile : Option String}
    (ho : Orderly serde nodeAgent w (.insert soulFile)) {todo : List ℕ} {maxId : EvolutionId}
    {episode : ℕ} {id : EvolutionId} {rec : RollbackRecord}
    (hrestore : w.applier.restore = .holding todo maxId episode id rec) :
    ∃ a, w.acked.get? id = some a ∧
      a.record = some (healLegacyTarget nodeAgent rec soulFile) ∧ a.rolledBack = false := by
  obtain ⟨id', a, ha, hepisode, hnot, hlegible⟩ := ho _ _ _ _ _ hrestore
  obtain ⟨rec', hrec', proposal, hwritten⟩ := h.written id' a episode ha hepisode
  obtain ⟨e, he, hid, hrec⟩ := h.holding _ _ _ _ _ hrestore
  obtain rfl := Option.some.inj (he.symm.trans hwritten)
  obtain rfl : id = id' :=
    Option.some.inj (hid.symm.trans (parseEvolutionIdFromTitle_title id' proposal))
  have hl := hlegible rec' hrec'
  have hsame : (Episode.mk none (some rec'.owner)
      [⟨undoStepLine serde a.summary rec', some rec'.owner⟩]).record serde nodeAgent = some rec :=
    hrec
  rw [hsame] at hl
  exact ⟨a, ha, hrec'.trans hl.symm, hnot⟩

theorem Law.insert (h : Law serde nodeAgent w) {soulFile : Option String}
    (ho : Orderly serde nodeAgent w (.insert soulFile)) :
    Law serde nodeAgent ⟨w.applier.insert nodeAgent soulFile, w.acked⟩ := by
  unfold Applier.insert
  split
  swap
  · exact h
  rename_i todo maxId episode id rec hrestore
  obtain ⟨a, ha, hrec, hnot⟩ := h.healed ho hrestore
  refine ⟨fun id' rec' hstore hdue hremoving => ?_, h.written, fun j hj => ?_,
    fun _ _ _ _ _ hr => by cases hr⟩
  · rw [Table.get?_insert] at hstore
    split at hstore
    · rename_i heq
      cases hstore
      exact ⟨a, heq ▸ ha, hrec, hnot⟩
    · exact h.store id' rec' hstore hdue hremoving
  · refine (h.job j hj).mono (grows_of_eq rfl) rfl ?_
    rintro caller id' rec' rfl hget
    obtain ⟨-, -, a', ha', hrec', -⟩ := h.job _ hj
    rw [Table.get?_insert]
    split
    · rename_i heq
      rw [heq, ha] at ha'
      cases ha'
      exact hrec.symm.trans hrec'
    · exact hget

theorem Law.restart (h : Law serde nodeAgent w) :
    Law serde nodeAgent ⟨boot w.applier.episodes, w.acked⟩ where
  store _ _ hstore := nomatch hstore
  written := h.written
  job _ hj := nomatch hj
  holding _ _ _ _ _ hr := nomatch hr

/-- **Every orderly step** keeps the law. -/
theorem Law.step (h : Law serde nodeAgent w) {e : Event} (ho : Orderly serde nodeAgent w e) :
    Law serde nodeAgent (w.step serde nodeAgent e).1 := by
  cases e with
  | propose proposal => exact h.stay (grows_of_eq rfl) rfl rfl (fun _ _ _ _ _ hr => hr) rfl
  | take k agent soul prior lintError => exact h.take k agent soul prior lintError
  | episodeStart a => exact h.episodeStart a
  | link a => exact h.link a
  | readback ok => exact h.readback ok
  | apply ok summary => exact h.apply ok summary
  | ack => exact h.ack ho
  | note => exact h.note
  | rollback caller id => exact h.rollback caller id
  | rolled ok => exact h.rolled ok
  | remove => exact h.remove
  | list episodes => exact h.list episodes
  | read ok => exact h.read ok
  | insert soulFile => exact h.insert ho
  | seed =>
    have hseed : Law serde nodeAgent ⟨w.applier.seed, w.acked⟩ := by
      unfold Applier.seed
      split
      · exact h.stay (grows_of_eq rfl) rfl rfl (fun _ _ _ _ _ hr => nomatch hr) rfl
      · exact h
    exact hseed
  | other e => exact h.stay (grows_append rfl) rfl rfl (fun _ _ _ _ _ hr => hr) rfl
  | restart => exact h.restart

/-- What a step does to the map. -/
theorem Applier.store_step (s : Applier) (e : Event) :
    (s.step serde nodeAgent e).1.store = s.store ∨ e = .restart ∨
      (∃ p rec, s.job = some (.noting p) ∧ p.record = some rec ∧
        (s.step serde nodeAgent e).1.store = s.store.insert p.id rec) ∨
      (∃ id, s.job = some (.removing id) ∧
        (s.step serde nodeAgent e).1.store = s.store.erase id) ∨
      ∃ soulFile todo maxId episode id rec, e = .insert soulFile ∧
        s.restore = .holding todo maxId episode id rec ∧
        (s.step serde nodeAgent e).1.store =
          s.store.insert id (healLegacyTarget nodeAgent rec soulFile) := by
  cases e with
  | note =>
    dsimp only [Applier.step, Applier.note]
    split
    · rename_i p hjob
      cases hrec : p.record with
      | none => exact .inl rfl
      | some rec => exact .inr (.inr (.inl ⟨p, rec, hjob, hrec, rfl⟩))
    · exact .inl rfl
  | remove =>
    dsimp only [Applier.step, Applier.remove]
    split
    · rename_i id hjob
      exact .inr (.inr (.inr (.inl ⟨id, hjob, rfl⟩)))
    · exact .inl rfl
  | insert soulFile =>
    dsimp only [Applier.step, Applier.insert]
    split
    · rename_i todo maxId episode id rec hrestore
      exact .inr (.inr (.inr (.inr ⟨soulFile, todo, maxId, episode, id, rec, rfl, hrestore, rfl⟩)))
    · exact .inl rfl
  | restart => exact .inr (.inl rfl)
  | _ =>
    left
    dsimp only [Applier.step, Applier.take, Applier.episodeStart, Applier.link, Applier.readback,
      Applier.apply, Applier.ack, Applier.rollback, Applier.rolled, Applier.list, Applier.read,
      Applier.seed]
    repeat' split
    all_goals rfl

/-- The record of the last evolution under an id stays in the map. -/
theorem Law.kept (h : Law serde nodeAgent w) {e : Event} (ho : Orderly serde nodeAgent w e)
    {id : EvolutionId} {a : Acked} {rec : RollbackRecord} (ha : w.acked.get? id = some a)
    (hrec : a.record = some rec) (hget : w.applier.store.get? id = some rec)
    (hremoving : w.applier.job ≠ some (.removing id)) (hrestart : e ≠ .restart) :
    (w.step serde nodeAgent e).1.applier.store.get? id = some rec := by
  dsimp only [Watched.step]
  rcases w.applier.store_step e with hsame | hr | ⟨p, rec', hjob, hrec', hstore⟩ |
    ⟨id', hjob, hstore⟩ | ⟨soulFile, todo, maxId, episode, id', rec', rfl, hrestore, hstore⟩
  · rw [hsame]
    exact hget
  · exact absurd hr hrestart
  · obtain ⟨-, r, hacked⟩ := h.job _ hjob
    rw [hstore, Table.get?_insert]
    split
    · rename_i heq
      rw [← heq, ha] at hacked
      cases hacked
      exact hrec'.symm.trans hrec
    · exact hget
  · have hne : id ≠ id' := by
      rintro rfl
      exact hremoving hjob
    rw [hstore, Table.get?_erase, if_neg hne]
    exact hget
  · obtain ⟨a', ha', hrec'', -⟩ := h.healed ho hrestore
    rw [hstore, Table.get?_insert]
    split
    · rename_i heq
      rw [← heq, ha] at ha'
      cases ha'
      exact hrec''.symm.trans hrec
    · exact hget

/-- **An orderly step** is as expected. -/
theorem Law.undoes (h : Law serde nodeAgent w) {e : Event} (ho : Orderly serde nodeAgent w e) :
    Undoes serde nodeAgent w e where
  applies caller id undo target ok hout := by
    have hrolled : ∃ rec, e = .rolled ok ∧ w.applier.job = some (.rolling caller id rec) ∧
        undo = rec.undo ∧ target = decodeSoulTarget rec.target := by
      cases e with
      | rolled ok' =>
        dsimp only [Watched.step, Applier.step, Applier.rolled] at hout
        split at hout
        · cases hout
          exact ⟨_, rfl, ‹_›, rfl, rfl⟩
        · cases hout
      | ack =>
        dsimp only [Watched.step, Applier.step, Applier.ack] at hout
        split at hout <;> cases hout
      | _ => cases hout
    obtain ⟨rec, rfl, hjob, hundo, htarget⟩ := hrolled
    obtain ⟨hauthorized, hget, a, ha, hrec, hnot⟩ := h.job _ hjob
    refine ⟨a, rec, ha, hrec, hnot, hundo, htarget, hauthorized, fun _ => ?_⟩
    exact h.kept ho ha hrec hget (by simp [hjob]) nofun
  kept _ _ _ ha hrec hget hremoving hrestart := h.kept ho ha hrec hget hremoving hrestart

/-- **A rollback undoes the evolution it names** in every orderly run. -/
theorem undoes_of_orderly (serde : Serde) (nodeAgent : String) (episodes : List Episode)
    (es : List Event)
    (ho : Run.Always (Watched.step serde nodeAgent) (Watched.start episodes)
      (fun _ w e => Orderly serde nodeAgent w e) es) :
    Run.Always (Watched.step serde nodeAgent) (Watched.start episodes)
      (fun _ w e => Undoes serde nodeAgent w e) es :=
  Run.Always.of_invariant (I := fun _ w => Law serde nodeAgent w) (law_start episodes)
    (fun _ _ _ hlaw ho => hlaw.step ho) (fun _ _ _ hlaw ho => hlaw.undoes ho) ho

end Law

/-! ### Runs -/

/-- The JSON of what a registration and a rewrite of a soul are undone by, when there is nothing to
escape in it. It is read back, if it is that of one of these. -/
def jsonSerde (undos : List EvolutionProposal) : Serde :=
  let field (key value : String) := "\"" ++ key ++ "\":\"" ++ value ++ "\""
  let toString
    | .unregisterMcpServer name reason => "\x7b" ++ field "kind" "unregister_mcp_server" ++ "," ++
      field "name" name ++ "," ++ field "reason" reason ++ "\x7d"
    | .updateSystemPrompt content reason => "\x7b" ++ field "kind" "update_system_prompt" ++ "," ++
      field "content" content ++ "," ++ field "reason" reason ++ "\x7d"
    | _ => ""
  { toString, fromStr := fun s => undos.find? fun undo => toString undo == s }

/-- A server is registered by the node's agent, and everything goes well. -/
def registers (name : String) : List Event :=
  [.propose (.registerMcpServer name "true" Table.empty ""), .take 0 "APEX" none {} false,
    .apply true ("registered MCP server '" ++ name ++ "'"), .ack, .episodeStart .ok,
      .link .ok, .note]

/-- A soul is to be rewritten: the snapshot is stored, and the write fails. -/
def rewriteFails : List Event :=
  [.propose (.updateSystemPrompt "new" ""), .take 0 "APEX" none { oldSoul := some "old" } false,
    .episodeStart .ok, .link .ok, .readback true, .apply false ""]

/-- An episode is restored. -/
def restores (episode : ℕ) : List Event := [.list (some [episode]), .read true, .insert none, .seed]

/-- What its record undoes a registration and a rewrite by. -/
def undoA : EvolutionProposal := .unregisterMcpServer "a" "rollback"

def undoSoul : EvolutionProposal := .updateSystemPrompt "old" "rollback"

/-- The episode that the restore has read. -/
def Restore.episode : Restore → Option ℕ
  | .holding _ _ episode _ _ => some episode
  | _ => none

theorem orderly_insert {serde : Serde} {nodeAgent : String} {w : Watched} {soulFile : Option String}
    (id : EvolutionId) (a : Acked) (hget : w.acked.get? id = some a)
    (hepisode : w.applier.restore.episode = a.episode) (hnot : a.rolledBack = false)
    (hlegible : Legible serde nodeAgent a soulFile) :
    Orderly serde nodeAgent w (.insert soulFile) := by
  intro todo maxId episode id' rec hrestore
  rw [hrestore] at hepisode
  exact ⟨id, a, hget, hepisode.symm, hnot, hlegible⟩

/-- After a start a registration is rolled back, at the second attempt. -/
theorem undoes_of_orderly_registers :
    Run.Always (Watched.step (jsonSerde [undoA]) "APEX") (Watched.start [])
      (fun _ w e => Undoes (jsonSerde [undoA]) "APEX" w e)
      (registers "a" ++ [.restart] ++ restores 0 ++
        [.rollback "APEX" 1, .rolled false, .rollback "APEX" 1, .rolled true, .remove]) := by
  refine undoes_of_orderly (jsonSerde [undoA]) "APEX" [] _ ?_
  simp only [registers, restores, List.cons_append, List.nil_append, Run.always_cons]
  refine ⟨trivial, trivial, trivial, fun _ _ _ _ => rfl, trivial, trivial, trivial, trivial,
    trivial, trivial, ?_, trivial, trivial, trivial, trivial, trivial, trivial, .nil⟩
  refine orderly_insert 1 ⟨some ⟨undoA, "APEX", "global"⟩, "registered MCP server 'a'", some 0,
    false⟩ (by decide +kernel) (by decide +kernel) rfl ?_
  unfold Legible
  decide +kernel

/-- The undo of an evolution that is applied next. -/
def rolling (serde : Serde) : Job → Option (EvolutionId × String)
  | .rolling _ id rec => some (id, serde.toString rec.undo)
  | _ => none

/-- An undo is about to be applied again, or another one than was expected. -/
theorem not_undoes_of_rolling {serde : Serde} {nodeAgent : String} {w : Watched}
    (hw : ∃ x ∈ w.applier.job.bind (rolling serde), ∀ a ∈ w.acked.get? x.1,
      a.rolledBack = true ∨ a.record.map (fun rec => serde.toString rec.undo) ≠ some x.2) :
    ¬ Undoes serde nodeAgent w (.rolled true) := by
  intro h
  obtain ⟨x, hx, hacked⟩ := hw
  obtain ⟨j, hj, hrolling⟩ := Option.bind_eq_some_iff.mp hx
  cases j with
  | rolling caller id rec =>
    cases hrolling
    obtain ⟨a, rec', ha, hrec, hnot, hundo, -⟩ := h.applies caller id rec.undo
      (decodeSoulTarget rec.target) true (by simp [Watched.step, Applier.step, Applier.rolled, hj])
    rcases hacked a ha with hback | hother
    · exact absurd (hnot.symm.trans hback) (by decide)
    · exact hother (by rw [hrec, hundo]; rfl)
  | _ => cases hrolling

/-- An evolution is rolled back, the daemon starts again, and it is rolled back once more. A rewrite
fails after its snapshot was stored, the daemon starts again, and the rewrite is rolled back. After
a start an evolution is given the id of an earlier one, the restore reads the earlier one's episode,
and the later one is rolled back by the earlier one's undo. -/
theorem not_undoes :
    ¬ Run.Always (Watched.step (jsonSerde [undoA]) "APEX") (Watched.start [])
        (fun _ w e => Undoes (jsonSerde [undoA]) "APEX" w e)
        (registers "a" ++ [.rollback "APEX" 1, .rolled true, .remove, .restart] ++ restores 0 ++
          [.rollback "APEX" 1] ++ [.rolled true]) ∧
      ¬ Run.Always (Watched.step (jsonSerde [undoSoul]) "APEX") (Watched.start [])
        (fun _ w e => Undoes (jsonSerde [undoSoul]) "APEX" w e)
        (rewriteFails ++ [.restart] ++ restores 0 ++ [.rollback "APEX" 1] ++ [.rolled true]) ∧
      ¬ Run.Always (Watched.step (jsonSerde [undoA]) "APEX") (Watched.start [])
        (fun _ w e => Undoes (jsonSerde [undoA]) "APEX" w e)
        (registers "a" ++ [.restart] ++ registers "b" ++ restores 0 ++ [.rollback "APEX" 1] ++
          [.rolled true]) := by
  refine ⟨fun h => ?_, fun h => ?_, fun h => ?_⟩
  · exact not_undoes_of_rolling (by decide +kernel) (Run.always_concat.mp h).2
  · exact not_undoes_of_rolling (by decide +kernel) (Run.always_concat.mp h).2
  · exact not_undoes_of_rolling (by decide +kernel) (Run.always_concat.mp h).2

end ApexOS.Agentd.Rollback

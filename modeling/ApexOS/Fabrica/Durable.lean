import ApexOS.Fabrica.Handling
import ApexOS.Fabrica.Boot

/-!
# What was acknowledged is known

A fan-out is durable before it is acknowledged: the transaction with the workers it minted is on the
disk when the result that names them goes out. The mirror rows of workers on peers are not in that
transaction; their file is written at the end of the handler, after the result. So a process that
ends in between forgets rows it has named, and its next one mints their ids again. Unless that
happens, everybody who was named is known in every later state, under an id nobody else gets.

What the driver's books and the files say about who is who is a `Register`. The argument follows the
register of the driver, of the disk, and the names given so far, effect by effect, so that it holds
wherever a handler is cut off.

## Main definitions

* `Effect.named`, `Effect.namedRemote`: whom a result or an answer to a peer names
* `Driver.Honours`: everybody named is known
* `Driver.Withholds`: a fan-out whose transaction is not written changes nothing and names nobody
* `owes`, `Node.EndsSaved`: no process ends with named rows that are on no file
* `Register`, `Sound`: who is who, in the books and on the disk

## Main results

* `Node.honours_of_endsSaved`: in every run of which the processes end so
-/

namespace ApexOS.Fabrica

open ApexOS.Agentd (SessionId ActionId)

/-! ### Names -/

/-- A worker here is named; a result of a call that waited does not give its session. -/
structure Mention where
  worker : ℕ
  session : Option SessionId
  batch : ℕ
  deriving DecidableEq, Repr

/-- A worker on a peer is named. -/
structure RemoteMention where
  worker : ℕ
  node : String
  batch : ℕ
  deriving DecidableEq, Repr

/-- The rows of a report that are of workers here. -/
def mentions (batch : ℕ) (rows : List (Row × Option String)) : List Mention :=
  (rows.filter fun r => r.1.node.isNone).map fun r => ⟨r.1.worker, none, batch⟩

/-- The rows of a report that are of workers on peers. -/
def remoteMentions (batch : ℕ) (rows : List (Row × Option String)) : List RemoteMention :=
  rows.filterMap fun r => r.1.node.map fun node => ⟨r.1.worker, node, batch⟩

namespace Effect

/-- The workers here that a fan-out is acknowledged with, at once, after its report, or to a
peer. -/
def named : Effect → List Mention
  | .event (.toolResult _ _ (.fanned ack)) =>
    ack.workers.map fun x => ⟨x.1, some x.2, ack.batch⟩
  | .event (.toolResult _ _ (.reported batch _ _ _ _ rows)) => mentions batch rows
  | .reply (.accepted batch rows _ _) => rows.map fun a => ⟨a.worker, some a.session, batch⟩
  | _ => []

/-- The workers on peers that a fan-out is acknowledged with. -/
def namedRemote : Effect → List RemoteMention
  | .event (.toolResult _ _ (.fanned ack)) => ack.remote.map fun x => ⟨x.1, x.2, ack.batch⟩
  | .event (.toolResult _ _ (.reported batch _ _ _ _ rows)) => remoteMentions batch rows
  | _ => []

/-- The fate of a transaction. -/
def txnFate : Effect → Option Bool
  | .txn _ ok => some ok
  | _ => none

/-- Nobody is named, and none of the files of workers, batches and mirror rows is changed. -/
def inert : Effect → Bool
  | .txn _ ok | .remotesFile _ ok => !ok
  | .workersFile .. | .batchesFile .. => false
  | .event (.toolResult _ _ (.fanned _)) | .event (.toolResult _ _ (.reported ..)) => false
  | .reply (.accepted ..) => false
  | _ => true

end Effect

/-- Mirror rows have been named, and their file has not been written since. -/
def owes (effs : List Effect) : Bool :=
  effs.foldl (fun owing e => match e with
    | .remotesFile _ true => false
    | e => owing || !e.namedRemote.isEmpty) false

namespace Driver

/-- **Everybody who was named is known**: a worker here in the books, a worker on a peer among the
mirror rows, with the batch it was named with, which is in the ledger. Nobody else has its id, and
the counter is past it. -/
structure Honours (d : Driver) (effs : List Effect) : Prop where
  worker : ∀ e ∈ effs, ∀ m ∈ e.named, ∃ wk, d.workers.get? m.worker = some wk ∧
    m.session.all (· = wk.session) = true ∧ wk.batch = m.batch
  remote : ∀ e ∈ effs, ∀ m ∈ e.namedRemote, ∃ r, d.remotes.get? m.worker = some r ∧
    r.node = m.node ∧ r.batch = m.batch
  ledger : ∀ e ∈ effs, (∀ m ∈ e.named, d.batches.contains m.batch = true) ∧
    ∀ m ∈ e.namedRemote, d.batches.contains m.batch = true
  apart : ∀ id, d.workers.contains id = true → d.remotes.contains id = false
  ahead : ∀ id, d.workers.contains id = true ∨ d.remotes.contains id = true → id < d.nextWorkerId

/-- A fan-out, from a session here or from a peer. -/
def Input.fansOut : Input → Bool
  | .request _ _ tool _ => tool = "task_fanout"
  | .mesh (.fanout ..) => true
  | _ => false

/-- A fan-out whose transaction is not written leaves the books as they were and names nobody. -/
def Withholds (cfg : Config) (w : World) (d : Driver) (i : Input) : Prop :=
  i.fansOut = true → (d.react cfg w i).out.findSome? Effect.txnFate = some false →
    (d.react cfg w i).workers = d.workers ∧ (d.react cfg w i).remotes = d.remotes ∧
      (d.react cfg w i).batches = d.batches ∧
      ∀ e ∈ (d.react cfg w i).out, e.named = [] ∧ e.namedRemote = []

end Driver

namespace Node

/-- What was done in a run. -/
def effects (past : List (Happening × List Effect)) : List Effect := past.flatMap Prod.snd

/-- No process ends with rows it has named and not written. -/
def EndsSaved (cfg : Config) (past : List (Happening × List Effect)) (n : Node) : Happening → Prop
  | .handled .. => True
  | .crashed w i k _ => owes (effects past ++ (n.driver.react cfg w i).out.take k) = false
  | .restarted _ => owes (effects past) = false

end Node

/-! ### Registers -/

/-- Where a worker is, its batch, and its conductor. -/
structure Place (α : Type) where
  seat : α
  batch : ℕ
  parent : SessionId

/-- Who is who: the place of each worker here, in a session, and on a peer, at a node, and the
conductors of the batches of the ledger. -/
@[ext] structure Register where
  workers : ℕ → Option (Place SessionId)
  remotes : ℕ → Option (Place String)
  batches : ℕ → Option SessionId

/-- The place of a worker here. -/
def Worker.place (wk : Worker) : Place SessionId := ⟨wk.session, wk.batch, wk.parent⟩

/-- The place of a worker as the files have it. -/
def PersistedWorker.place (pw : PersistedWorker) : Place SessionId :=
  ⟨pw.session, pw.batch, pw.parent⟩

/-- The place of a worker on a peer. -/
def RemoteWorker.place (r : RemoteWorker) : Place String := ⟨r.node, r.batch, r.parent⟩

/-- The register of the books. -/
def Driver.Core.register (c : Driver.Core) : Register where
  workers id := (c.workers.get? id).map Worker.place
  remotes id := (c.remotes.get? id).map RemoteWorker.place
  batches batch := (c.batches.get? batch).map BatchMeta.parent

/-- The register of the files. -/
def Disk.register (k : Disk) : Register where
  workers id := (Table.empty.insertAll (k.workerRows.map fun pw => (pw.id, pw.place))).get? id
  remotes id := (Table.empty.insertAll (k.remotesFile.map fun p => (p.id, p.row.place))).get? id
  batches batch :=
    (Table.empty.insertAll (k.batchRows.map fun pb => (pb.batch, pb.parent))).get? batch

namespace Register

/-- The register has the worker that was named. -/
def Has (R : Register) (m : Mention) : Prop :=
  ∃ x, R.workers m.worker = some x ∧ x.batch = m.batch ∧ m.session.all (· = x.seat) = true

/-- The register has the worker on a peer that was named. -/
def HasRow (R : Register) (m : RemoteMention) : Prop :=
  ∃ x, R.remotes m.worker = some x ∧ x.batch = m.batch ∧ x.seat = m.node

end Register

section Writes

variable {k : Disk} {e : Effect} {d : Driver}

theorem register_apply_of_inert (h : e.inert = true) : (k.apply e).register = k.register := by
  cases e with
  | txn txn ok =>
    cases ok with
    | true => cases h
    | false => rfl
  | remotesFile rows ok =>
    cases ok with
    | true => cases h
    | false => rfl
  | workersFile rows ok => cases h
  | batchesFile rows ok => cases h
  | mandalasFile rows ok => cases ok <;> rfl
  | cellFile mandala cell ok => cases ok <;> rfl
  | _ => rfl

/-- With a transaction on the disk, the older files are not read. -/
theorem register_apply_of_isMirror (h : e.isMirror = true) (hk : k.loadWorkerTxn.isSome = true) :
    (k.apply e).register = k.register ∧ (k.apply e).loadWorkerTxn.isSome = true := by
  obtain ⟨txn, htxn⟩ := Option.isSome_iff_exists.mp hk
  have of_txn {k' : Disk} (hload : k'.loadWorkerTxn = k.loadWorkerTxn)
      (hremotes : k'.remotesFile = k.remotesFile) :
      k'.register = k.register ∧ k'.loadWorkerTxn.isSome = true := by
    refine ⟨?_, hload ▸ hk⟩
    simp only [Disk.register, Disk.workerRows, Disk.batchRows, hload, htxn, hremotes, Option.elim]
  cases e with
  | workersFile rows ok => cases ok <;> exact of_txn rfl rfl
  | batchesFile rows ok => cases ok <;> exact of_txn rfl rfl
  | _ => cases h

/-- A written transaction is the register of the books, for workers and batches. -/
theorem register_apply_txn (k : Disk) (d : Driver) :
    (k.apply (.txn d.nextTxn true)).loadWorkerTxn.isSome = true ∧
    (k.apply (.txn d.nextTxn true)).register =
      { d.core.register with remotes := k.register.remotes } := by
  have hload : (k.apply (.txn d.nextTxn true)).loadWorkerTxn = some d.nextTxn := by
    simp [Disk.apply, Disk.loadWorkerTxn, Driver.nextTxn, workerTxnVersion]
  refine ⟨by rw [hload]; rfl, Register.ext ?_ rfl ?_⟩
  · funext id
    simp only [Disk.register, Disk.workerRows, hload, Option.elim]
    exact get?_snapshotWorkers d.workers PersistedWorker.place id
  · funext batch
    simp only [Disk.register, Disk.batchRows, hload, Option.elim]
    exact get?_snapshotBatches d.batches PersistedBatch.parent batch

/-- What `save_remotes` writes. -/
def Driver.remoteRows (d : Driver) : List PersistedRemoteWorker :=
  (d.remotes.entries.map fun x => ⟨x.1, x.2⟩).insertionSort
    fun a b : PersistedRemoteWorker => a.id ≤ b.id

/-- The written mirror rows are those of the books. -/
theorem register_apply_remotesFile (k : Disk) (d : Driver) :
    (k.apply (.remotesFile d.remoteRows true)).register =
      { k.register with remotes := d.core.register.remotes } := by
  refine Register.ext rfl ?_ rfl
  funext id
  exact get?_snapshotRemotes d.remotes (fun p => p.row.place) id

end Writes

/-! ### Soundness -/

/-- The register `R`, what was done, and the disk agree: ids are of one kind and have their batch,
of the same conductor, the disk has the workers and the ledger, and no row that is not in `R`,
everybody named is in `R`, and rows that were named are on the disk unless they are owed. -/
structure Sound (R : Register) (effs : List Effect) (k : Disk) : Prop where
  apart : ∀ id x, R.workers id = some x → R.remotes id = none
  homed : ∀ id x, R.workers id = some x → R.batches x.batch = some x.parent
  rowHomed : ∀ id x, R.remotes id = some x → R.batches x.batch = some x.parent
  workers : k.register.workers = R.workers
  batches : k.register.batches = R.batches
  remotes : ∀ id x, k.register.remotes id = some x → R.remotes id = some x
  named : ∀ e ∈ effs, ∀ m ∈ e.named, R.Has m
  namedRow : ∀ e ∈ effs, ∀ m ∈ e.namedRemote, R.HasRow m
  kept : owes effs = false → ∀ e ∈ effs, ∀ m ∈ e.namedRemote, k.register.HasRow m

theorem owes_concat {effs : List Effect} {e : Effect} (he : ∀ rows, e ≠ .remotesFile rows true) :
    owes (effs ++ [e]) = (owes effs || !e.namedRemote.isEmpty) := by
  rw [owes, List.foldl_append]
  simp only [List.foldl_cons, List.foldl_nil]
  rfl

variable {R : Register} {effs : List Effect} {k : Disk} {e : Effect}

/-- Something is done that the disk's register does not notice, and that names only who is there. -/
theorem Sound.concat (h : Sound R effs k) (hdisk : (k.apply e).register = k.register)
    (he : ∀ rows, e ≠ .remotesFile rows true)
    (hnamed : ∀ m ∈ e.named, R.Has m) (hrow : ∀ m ∈ e.namedRemote, R.HasRow m) :
    Sound R (effs ++ [e]) (k.apply e) := by
  have hmem {e' : Effect} (he' : e' ∈ effs ++ [e]) : e' ∈ effs ∨ e' = e := by simpa using he'
  refine ⟨h.apart, h.homed, h.rowHomed, ?_, ?_, ?_, ?_, ?_, ?_⟩
  · rw [hdisk]
    exact h.workers
  · rw [hdisk]
    exact h.batches
  · rw [hdisk]
    exact h.remotes
  · intro e' he' m hm
    rcases hmem he' with he' | rfl
    · exact h.named e' he' m hm
    · exact hnamed m hm
  · intro e' he' m hm
    rcases hmem he' with he' | rfl
    · exact h.namedRow e' he' m hm
    · exact hrow m hm
  · intro howes e' he' m hm
    rw [owes_concat he, Bool.or_eq_false_iff] at howes
    rw [hdisk]
    rcases hmem he' with he' | rfl
    · exact h.kept howes.1 e' he' m hm
    · have hnone : e'.namedRemote = [] := by simpa using howes.2
      rw [hnone] at hm
      cases hm

/-- The names are forgotten. -/
theorem Sound.forget (h : Sound R effs k) : Sound R [] k :=
  ⟨h.apart, h.homed, h.rowHomed, h.workers, h.batches, h.remotes, by simp, by simp, by simp⟩

theorem named_of_inert (h : e.inert = true) : e.named = [] ∧ e.namedRemote = [] := by
  cases e with
  | event ev =>
    cases ev with
    | toolResult session call output =>
      cases output with
      | fanned ack => cases h
      | reported => cases h
      | _ => exact ⟨rfl, rfl⟩
    | _ => exact ⟨rfl, rfl⟩
  | reply r =>
    cases r with
    | accepted => cases h
    | _ => exact ⟨rfl, rfl⟩
  | _ => exact ⟨rfl, rfl⟩

theorem Sound.inert (h : Sound R effs k) (he : e.inert = true) :
    Sound R (effs ++ [e]) (k.apply e) := by
  obtain ⟨hnamed, hrow⟩ := named_of_inert he
  refine h.concat (register_apply_of_inert he) ?_ (by simp [hnamed]) (by simp [hrow])
  rintro rows rfl
  simp [Effect.inert] at he

/-- The mirror rows are written. -/
theorem Sound.saveRemotes {d : Driver} (h : Sound d.core.register effs k) :
    Sound d.core.register (effs ++ [.remotesFile d.remoteRows true])
      (k.apply (.remotesFile d.remoteRows true)) := by
  have hold {e' : Effect} {rows : List PersistedRemoteWorker}
      (he' : e' ∈ effs ++ [.remotesFile rows true]) (hne : e'.namedRemote ≠ [] ∨ e'.named ≠ []) :
      e' ∈ effs := by
    rcases List.mem_append.mp he' with he' | he'
    · exact he'
    · rw [List.mem_singleton.mp he'] at hne
      simp [Effect.namedRemote, Effect.named] at hne
  have hnamedRow {e' : Effect} {m : RemoteMention} (he' : e' ∈ effs) (hm : m ∈ e'.namedRemote) :=
    h.namedRow e' he' m hm
  refine ⟨h.apart, h.homed, h.rowHomed, ?_, ?_, ?_, ?_, ?_, ?_⟩
  · rw [register_apply_remotesFile]
    exact h.workers
  · rw [register_apply_remotesFile]
    exact h.batches
  · rw [register_apply_remotesFile]
    exact fun id x hx => hx
  · intro e' he' m hm
    exact h.named e' (hold he' (Or.inr (List.ne_nil_of_mem hm))) m hm
  · intro e' he' m hm
    exact hnamedRow (hold he' (Or.inl (List.ne_nil_of_mem hm))) hm
  · intro _ e' he' m hm
    rw [register_apply_remotesFile]
    exact hnamedRow (hold he' (Or.inl (List.ne_nil_of_mem hm))) hm

/-! ### Handlers, cut off anywhere -/

/-- After what a handler has done so far the register is `R`, and all is sound, as it was wherever
the handler could have been cut off. -/
structure Covered (past : List Effect) (k : Disk) (R : Register) (out : List Effect) : Prop where
  now : Sound R (past ++ out) (out.foldl Disk.apply k)
  cut : ∀ done, done <+: out → ∃ R', Sound R' (past ++ done) (done.foldl Disk.apply k)

variable {past out : List Effect}

theorem Covered.concat {R' : Register} (h : Covered past k R out)
    (hs : Sound R' (past ++ out ++ [e]) ((out.foldl Disk.apply k).apply e)) :
    Covered past k R' (out ++ [e]) := by
  have hnow : Sound R' (past ++ (out ++ [e])) ((out ++ [e]).foldl Disk.apply k) := by
    rw [← List.append_assoc, List.foldl_append]
    exact hs
  refine ⟨hnow, fun done hdone => ?_⟩
  rcases List.prefix_concat_iff.mp hdone with rfl | hdone
  · exact ⟨R', hnow⟩
  · exact h.cut done hdone

theorem Covered.inert (h : Covered past k R out) (heffs : ∀ e ∈ effs, e.inert = true) :
    Covered past k R (out ++ effs) := by
  induction effs generalizing out with
  | nil => simpa using h
  | cons e effs ih =>
    rw [List.append_cons]
    exact ih (h.concat (h.now.inert (heffs e (by simp)))) fun e' he' => heffs e' (by simp [he'])

theorem Covered.mirrors (h : Covered past k R out)
    (hk : (out.foldl Disk.apply k).loadWorkerTxn.isSome = true)
    (heffs : ∀ e ∈ effs, e.isMirror = true) : Covered past k R (out ++ effs) := by
  induction effs generalizing out with
  | nil => simpa using h
  | cons e effs ih =>
    have he := heffs e (by simp)
    obtain ⟨hdisk, hload⟩ := register_apply_of_isMirror he hk
    have hsilent : e.named = [] ∧ e.namedRemote = [] ∧ ∀ rows, e ≠ .remotesFile rows true := by
      cases e with
      | workersFile rows ok => exact ⟨rfl, rfl, nofun⟩
      | batchesFile rows ok => exact ⟨rfl, rfl, nofun⟩
      | _ => cases he
    obtain ⟨hnamed, hrow, hfile⟩ := hsilent
    rw [List.append_cons]
    refine ih (h.concat (h.now.concat hdisk hfile (by simp [hnamed]) (by simp [hrow]))) ?_
      fun e' he' => heffs e' (by simp [he'])
    rw [List.foldl_append]
    exact hload

/-- A transaction is written, and the older files after it. -/
theorem Covered.saved {d : Driver} (h : Covered past k R out)
    (hs : Sound d.core.register (past ++ out ++ [.txn d.nextTxn true])
      ((out.foldl Disk.apply k).apply (.txn d.nextTxn true)))
    (heffs : ∀ e ∈ effs, e.isMirror = true) :
    Covered past k d.core.register (out ++ .txn d.nextTxn true :: effs) := by
  rw [List.append_cons]
  refine (h.concat hs).mirrors ?_ heffs
  rw [List.foldl_append]
  exact (register_apply_txn _ d).1

/-- A save of what the disk has already. -/
theorem Sound.txn {d : Driver} (h : Sound d.core.register effs k) :
    Sound d.core.register (effs ++ [.txn d.nextTxn true]) (k.apply (.txn d.nextTxn true)) := by
  refine h.concat ?_ (by simp) (by simp [Effect.named]) (by simp [Effect.namedRemote])
  rw [(register_apply_txn k d).2]
  exact Register.ext h.workers.symm rfl h.batches.symm

/-! ### Moves -/

theorem Sound.homed_disk (h : Sound R effs k) (id : ℕ) (x : Place SessionId)
    (hx : k.register.workers id = some x) : k.register.batches x.batch = some x.parent := by
  rw [h.batches]
  exact h.homed id x (h.workers ▸ hx)

namespace Driver

variable {cfg : Config} {w : World} {c : Cause} {d d' : Driver} {id : ℕ}

theorem register_worker {wk wk' : Worker} (hget : d.workers.get? id = some wk) (h : Same wk wk') :
    ({ d.core with workers := d.workers.modify id fun _ => wk' } : Core).register =
      d.core.register := by
  refine Register.ext (funext fun id' => ?_) rfl rfl
  change ((d.workers.modify id fun _ => wk').get? id').map _ = (d.workers.get? id').map _
  rw [Table.get?_modify]
  split
  · rename_i hid
    rw [hid, hget]
    simp [Worker.place, h.session, h.batch, h.parent]
  · rfl

theorem register_row {r r' : RemoteWorker} (hget : d.remotes.get? id = some r)
    (h : r'.batch = r.batch ∧ r'.parent = r.parent ∧ r'.node = r.node) :
    ({ d.core with remotes := d.remotes.modify id fun _ => r' } : Core).register =
      d.core.register := by
  refine Register.ext rfl (funext fun id' => ?_) rfl
  change ((d.remotes.modify id fun _ => r').get? id').map _ = (d.remotes.get? id').map _
  rw [Table.get?_modify]
  split
  · rename_i hid
    rw [hid, hget]
    simp [RemoteWorker.place, h]
  · rfl

theorem register_batch {batch : ℕ} {f : BatchMeta → BatchMeta} (hf : ∀ b, (f b).parent = b.parent) :
    ({ d.core with batches := d.batches.modify batch f } : Core).register = d.core.register := by
  refine Register.ext rfl rfl (funext fun batch' => ?_)
  change ((d.batches.modify batch f).get? batch').map _ = (d.batches.get? batch').map _
  rw [Table.get?_modify]
  split
  · cases d.batches.get? batch' with
    | none => rfl
    | some b => exact congrArg some (hf b)
  · rfl

section Fan

variable {b : BatchMeta} {locals : List (ℕ × Worker)} {rows : List (ℕ × RemoteWorker)} {x : ℕ}

theorem Fanned.register_worker (h : Fanned d d' b locals rows) {y : Place SessionId}
    (hy : d'.core.register.workers x = some y) : d.core.register.workers x = some y ∨
      ∃ wk, (x, wk) ∈ locals ∧ y.batch = d.nextBatchId ∧ y.parent = b.parent := by
  obtain ⟨wk, hget, rfl⟩ := Option.map_eq_some_iff.mp hy
  rw [core_workers, ← Table.mem_iff_get?, h.workers] at hget
  rcases List.mem_append.mp hget with hold | hnew
  · refine Or.inl (Option.map_eq_some_iff.mpr ⟨wk, Table.mem_iff_get?.mp hold, rfl⟩)
  · exact Or.inr ⟨wk, hnew, (h.minted _ hnew).1, (h.minted _ hnew).2.1⟩

theorem Fanned.register_row (h : Fanned d d' b locals rows) {y : Place String}
    (hy : d'.core.register.remotes x = some y) : d.core.register.remotes x = some y ∨
      ∃ r, (x, r) ∈ rows ∧ y.batch = d.nextBatchId ∧ y.parent = b.parent := by
  obtain ⟨r, hget, rfl⟩ := Option.map_eq_some_iff.mp hy
  rw [core_remotes, ← Table.mem_iff_get?, h.remotes] at hget
  rcases List.mem_append.mp hget with hold | hnew
  · refine Or.inl (Option.map_eq_some_iff.mpr ⟨r, Table.mem_iff_get?.mp hold, rfl⟩)
  · exact Or.inr ⟨r, hnew, h.rowed _ hnew⟩

theorem Fanned.register_worker_of (h : Fanned d d' b locals rows) {y : Place SessionId}
    (hy : d.core.register.workers x = some y) : d'.core.register.workers x = some y := by
  obtain ⟨wk, hget, rfl⟩ := Option.map_eq_some_iff.mp hy
  refine Option.map_eq_some_iff.mpr ⟨wk, ?_, rfl⟩
  rw [core_workers, ← Table.mem_iff_get?, h.workers]
  exact List.mem_append_left _ (Table.mem_of_get? hget)

theorem Fanned.register_row_of (h : Fanned d d' b locals rows) {y : Place String}
    (hy : d.core.register.remotes x = some y) : d'.core.register.remotes x = some y := by
  obtain ⟨r, hget, rfl⟩ := Option.map_eq_some_iff.mp hy
  refine Option.map_eq_some_iff.mpr ⟨r, ?_, rfl⟩
  rw [core_remotes, ← Table.mem_iff_get?, h.remotes]
  exact List.mem_append_left _ (Table.mem_of_get? hget)

theorem Fanned.register_batch (h : Fanned d d' b locals rows) :
    d'.core.register.batches x =
      if x = d.nextBatchId then some b.parent else d.core.register.batches x := by
  change (d'.batches.get? x).map _ = _
  rw [h.batches, Table.get?_insert]
  split <;> rfl

/-- The ledger grows by an id that was not in use. -/
theorem Fanned.register_batch_of (h : Fanned d d' b locals rows) (hd : d.Fresh) {p : SessionId}
    (hx : d.core.register.batches x = some p) : d'.core.register.batches x = some p := by
  obtain ⟨b', hget, -⟩ := Option.map_eq_some_iff.mp hx
  have hlt : x < d.nextBatchId := hd.batch _ (Table.mem_of_get? hget)
  rw [h.register_batch, if_neg (Nat.ne_of_lt hlt)]
  exact hx

theorem Fresh.lt_of_register_worker (hd : d.Fresh) {y : Place SessionId}
    (hy : d.core.register.workers x = some y) : x < d.nextWorkerId := by
  obtain ⟨wk, hget, -⟩ := Option.map_eq_some_iff.mp hy
  exact hd.worker _ (Table.mem_of_get? hget)

theorem Fresh.lt_of_register_row (hd : d.Fresh) {y : Place String}
    (hy : d.core.register.remotes x = some y) : x < d.nextWorkerId := by
  obtain ⟨r, hget, -⟩ := Option.map_eq_some_iff.mp hy
  exact hd.remote _ (Table.mem_of_get? hget)

/-- The transaction of a fan-out: what is minted is on the disk as it comes into the books. -/
theorem Fanned.sound (h : Fanned d d' b locals rows) (hd : d.Fresh)
    (hs : Sound d.core.register effs k) :
    Sound d'.core.register (effs ++ [.txn d'.nextTxn true]) (k.apply (.txn d'.nextTxn true)) := by
  have hbatch : d'.core.register.batches d.nextBatchId = some b.parent := by simp [h.register_batch]
  have hold {e : Effect} (he : e ∈ effs ++ [.txn d'.nextTxn true])
      (hne : e.named ≠ [] ∨ e.namedRemote ≠ []) : e ∈ effs := by
    rcases List.mem_append.mp he with he | he
    · exact he
    · rw [List.mem_singleton.mp he] at hne
      simp [Effect.named, Effect.namedRemote] at hne
  refine ⟨?_, ?_, ?_, ?_, ?_, ?_, ?_, ?_, ?_⟩
  · intro x y hy
    by_contra hrow
    obtain ⟨z, hz⟩ := Option.ne_none_iff_exists'.mp hrow
    rcases h.register_worker hy with hy | ⟨wk, hwk, -⟩ <;>
      rcases h.register_row hz with hz | ⟨r, hr, -⟩
    · rw [hs.apart x y hy] at hz
      cases hz
    · exact absurd (hd.lt_of_register_worker hy) (Nat.not_lt.mpr (h.rowIds _ hr).1)
    · exact absurd (hd.lt_of_register_row hz) (Nat.not_lt.mpr (h.localIds _ hwk).1)
    · exact h.disjoint _ hwk _ hr rfl
  · intro x y hy
    rcases h.register_worker hy with hy | ⟨-, -, hnew⟩
    · exact h.register_batch_of hd (hs.homed x y hy)
    · rw [hnew.1, hnew.2]
      exact hbatch
  · intro x y hy
    rcases h.register_row hy with hy | ⟨-, -, hnew⟩
    · exact h.register_batch_of hd (hs.rowHomed x y hy)
    · rw [hnew.1, hnew.2]
      exact hbatch
  · rw [(register_apply_txn k d').2]
  · rw [(register_apply_txn k d').2]
  · rw [(register_apply_txn k d').2]
    exact fun x y hy => h.register_row_of (hs.remotes x y hy)
  · intro e he m hm
    obtain ⟨x, hget, hplace⟩ := hs.named e (hold he (Or.inl (List.ne_nil_of_mem hm))) m hm
    exact ⟨x, h.register_worker_of hget, hplace⟩
  · intro e he m hm
    obtain ⟨x, hget, hplace⟩ := hs.namedRow e (hold he (Or.inr (List.ne_nil_of_mem hm))) m hm
    exact ⟨x, h.register_row_of hget, hplace⟩
  · intro howes e he m hm
    rw [owes_concat (by simp), Bool.or_eq_false_iff] at howes
    rw [(register_apply_txn k d').2]
    exact hs.kept howes.1 e (hold he (Or.inr (List.ne_nil_of_mem hm))) m hm

end Fan

theorem inert_of_plain {e : Effect} (h : e.plain = true) : e.inert = true := by
  cases e with
  | event ev =>
    cases ev with
    | toolResult session call output =>
      cases output with
      | fanned ack => cases h
      | reported => cases h
      | _ => rfl
    | _ => rfl
  | reply r =>
    cases r with
    | accepted => cases h
    | _ => rfl
  | txn | workersFile | batchesFile | remotesFile => cases h
  | _ => rfl

theorem inert_of_isCard {e : Effect} {batch : ℕ} {parent : SessionId}
    (h : e.isCard batch parent = true) : e.inert = true := by
  cases e with
  | event ev =>
    cases ev with
    | workerStateChanged => rfl
    | _ => cases h
  | _ => cases h

theorem Trail.inert {wk wk' : Worker} (h : Trail id wk wk' effs) : ∀ e ∈ effs, e.inert = true := by
  intro e he
  rcases h.kinds e he with he | he | he | he
  · exact inert_of_plain he
  · exact inert_of_isCard he
  · cases e with
    | evidence => rfl
    | _ => cases he
  · cases e with
    | episodeEnd => rfl
    | _ => cases he

/-- The rows of a report are the workers of the batch, here and on peers. -/
theorem mem_batchRows {workers : Workers} {remotes : Remotes} {batch : ℕ}
    {dir : String} {row : Row} :
    row ∈ batchRows workers remotes batch dir ↔
      (∃ id wk, workers.get? id = some wk ∧ wk.batch = batch ∧ wk.row dir id = row) ∨
        ∃ id r, remotes.get? id = some r ∧ r.batch = batch ∧ r.row id = row := by
  rw [batchRows, (List.perm_insertionSort _ _).mem_iff]
  simp [Table.mem_iff_get?, and_assoc]

/-- The result of a call that waited names who is in the books. -/
theorem mentions_inlineResult {batch : ℕ} {e : Effect} {session : SessionId} {call : ActionId}
    {d₁ : Driver} {dir : String} (he : e = .event (.toolResult session call
      (d₁.inlineResult batch (batchRows d.workers d.remotes batch dir)))) :
    (∀ m ∈ e.named, d.core.register.Has m) ∧ ∀ m ∈ e.namedRemote, d.core.register.HasRow m := by
  subst he
  simp only [inlineResult, Effect.named, Effect.namedRemote, mentions, remoteMentions]
  constructor
  · intro m hm
    obtain ⟨x, hx, rfl⟩ := List.mem_map.mp hm
    obtain ⟨hx, hnode⟩ := List.mem_filter.mp hx
    obtain ⟨row, hrow, rfl⟩ := List.mem_map.mp hx
    rcases mem_batchRows.mp hrow with ⟨id, wk, hget, rfl, rfl⟩ | ⟨id, r, -, -, rfl⟩
    · exact ⟨wk.place, Option.map_eq_some_iff.mpr ⟨wk, hget, rfl⟩, rfl, rfl⟩
    · simp [RemoteWorker.row] at hnode
  · intro m hm
    obtain ⟨x, hx, hnode⟩ := List.mem_filterMap.mp hm
    obtain ⟨row, hrow, rfl⟩ := List.mem_map.mp hx
    obtain ⟨node, hsome, rfl⟩ := Option.map_eq_some_iff.mp hnode
    rcases mem_batchRows.mp hrow with ⟨id, wk, -, -, rfl⟩ | ⟨id, r, hget, rfl, rfl⟩
    · simp [Worker.row] at hsome
    · obtain rfl : r.node = node := Option.some.inj hsome
      exact ⟨r.place, Option.map_eq_some_iff.mpr ⟨r, hget, rfl⟩, rfl, rfl⟩

theorem Covered.follows {batch : ℕ} {dir : String} (h : Covered past k d.core.register out)
    (heffs : ∀ e ∈ effs, Follows batch (batchRows d.workers d.remotes batch dir) e) :
    Covered past k d.core.register (out ++ effs) := by
  induction effs generalizing out with
  | nil => simpa using h
  | cons e effs ih =>
    rw [List.append_cons]
    refine ih (h.concat ?_) fun e' he' => heffs e' (by simp [he'])
    rcases heffs e (by simp) with he | ⟨session, call, d₁, he⟩
    · exact h.now.inert (inert_of_plain he)
    · obtain ⟨hnamed, hrow⟩ := mentions_inlineResult he
      subst he
      exact h.now.concat rfl (by simp) hnamed hrow

/-- **A move keeps soundness, wherever it is cut off.** -/
theorem Move.covered (h : Move cfg w c d d') (hd : d.Fresh)
    (hs : Covered past k d.core.register d.out) : Covered past k d'.core.register d'.out := by
  cases h with
  | aside h =>
    obtain ⟨effs, hout, hplain⟩ := h.out
    rw [h.core, hout]
    exact hs.inert fun e he => inert_of_plain (hplain e he)
  | admission hc hcap hnext hget =>
    rename_i id wk
    obtain ⟨hcore, effs, hout, hplain⟩ := admitOne_spec d cfg w id wk
    rw [hcore, hout, register_worker hget same_admitted]
    refine hs.inert fun e he => ?_
    rcases List.mem_append.mp he with he | he
    · exact inert_of_plain (hplain e he)
    · rcases List.mem_pair.mp he with rfl | rfl <;> rfl
  | life hget hlife hcore hout htrail =>
    rw [hcore, hout, register_worker hget hlife.same]
    exact hs.inert htrail.inert
  | card hget => exact hs.inert (by simp [Effect.inert])
  | remoteCard hget => exact hs.inert (by simp [Effect.inert])
  | remote hc hget hsame hcore hout heffs =>
    rw [hcore, hout, register_row hget hsame]
    exact hs.inert fun e he => (heffs e he).elim inert_of_plain inert_of_isCard
  | fan hc hfan hok =>
    rename_i d₁ b locals rows
    obtain ⟨effs, hout, hmirrors, -⟩ := out_saveWorkerState d₁ w
    rw [core_saveWorkerState, hout, hok, hfan.out]
    exact hs.saved (hfan.sound hd hs.now) hmirrors
  | lost hn hm hcore hout =>
    rw [hcore, hout]
    exact hs.inert (by simp [Effect.inert])
  | save =>
    obtain ⟨effs, hout, hmirrors, hnone⟩ := out_saveWorkerState d w
    rw [core_saveWorkerState, hout]
    cases hok : w.written d.out.length with
    | true => exact hs.saved hs.now.txn hmirrors
    | false =>
      rw [hnone hok]
      exact hs.inert (by simp [Effect.inert])
  | saveRemotes =>
    change Covered past k d.core.register (d.out ++ [.remotesFile d.remoteRows _])
    cases hok : w.written d.out.length with
    | true => exact hs.concat hs.now.saveRemotes
    | false => exact hs.inert (by simp [Effect.inert])
  | report hc hget hdue =>
    obtain ⟨hcore, tail, hout, htail⟩ := @reportBatch_spec cfg d _ _ hget
    rw [hcore, hout, register_batch (by simp), List.append_cons]
    refine Covered.follows (hs.concat (hs.now.inert rfl)) htail
  | fanned hlocal hremote =>
    refine hs.concat (hs.now.concat rfl (by simp) ?_ ?_)
    · intro m hm
      obtain ⟨x, hx, rfl⟩ := List.mem_map.mp hm
      obtain ⟨wk, hget, hsession, hbatch⟩ := hlocal x hx
      exact ⟨wk.place, Option.map_eq_some_iff.mpr ⟨wk, hget, rfl⟩, hbatch,
        by simp [Worker.place, hsession]⟩
    · intro m hm
      obtain ⟨x, hx, rfl⟩ := List.mem_map.mp hm
      obtain ⟨r, hget, hnode, hbatch⟩ := hremote x hx
      exact ⟨r.place, Option.map_eq_some_iff.mpr ⟨r, hget, rfl⟩, hbatch, hnode⟩
  | accepted hlocal =>
    refine hs.concat (hs.now.concat rfl (by simp) ?_ (by simp [Effect.namedRemote]))
    intro m hm
    obtain ⟨a, ha, rfl⟩ := List.mem_map.mp hm
    obtain ⟨wk, hget, hsession, hbatch⟩ := hlocal a ha
    exact ⟨wk.place, Option.map_eq_some_iff.mpr ⟨wk, hget, rfl⟩, hbatch,
      by simp [Worker.place, hsession]⟩

/-- A turn of the loop keeps it. -/
theorem covered_react (hd : d.Fresh) (hs : Sound d.core.register past k) (i : Input) :
    Covered past k (d.react cfg w i).core.register (d.react cfg w i).out := by
  refine (react_induction (P := fun d => Covered past k d.core.register d.out) hd ?_ i
    fun c d₁ d₂ _ hmove hfresh h => hmove.covered hfresh h).1
  have hnow : Sound d.core.register (past ++ []) k := by rwa [List.append_nil]
  refine ⟨hnow, fun done hdone => ?_⟩
  rw [List.prefix_nil.mp hdone]
  exact ⟨_, hnow⟩

/-! ### Boots -/

theorem contains_of_register {batch : ℕ} {p : SessionId} (h : k.register.batches batch = some p) :
    (Table.empty.insertAll (k.batchRows.map fun pb => (pb.batch, pb.hydrate))).contains batch =
      true := by
  have hget := Table.get?_insertAll_map k.batchRows PersistedBatch.batch PersistedBatch.hydrate
    BatchMeta.parent batch
  obtain ⟨b, hb, -⟩ := Option.map_eq_some_iff.mp (hget.symm.trans h)
  exact Table.contains_iff.mpr ⟨b, hb⟩

/-- Workers that have their batch in the ledger leave nothing to complete. -/
theorem batches_boot (cfg : Config) (w : World)
    (hk : ∀ id x, k.register.workers id = some x →
      k.register.batches x.batch = some x.parent) :
    (boot cfg w k).batches = Table.empty.insertAll (k.batchRows.map fun pb =>
      (pb.batch, pb.hydrate)) := by
  have h := booted cfg w k
  refine h.complete fun wk hwk => ?_
  obtain ⟨x, hx, rfl⟩ := List.mem_map.mp hwk
  refine contains_of_register (p := x.2.parent) (hk x.1 x.2.place ?_)
  have hget := Table.mem_iff_get?.mp hx
  rw [h.workers] at hget
  refine (Table.get?_insertAll_map k.workerRows PersistedWorker.id (fun pw => pw.hydrate w.now)
    Worker.place x.1).trans ?_
  rw [hget]
  rfl

/-- A boot knows whom the disk knows. -/
theorem register_boot (cfg : Config) (w : World)
    (hk : ∀ id x, k.register.workers id = some x →
      k.register.batches x.batch = some x.parent) :
    (boot cfg w k).core.register = k.register := by
  have h := booted cfg w k
  refine Register.ext (funext fun id => ?_) (funext fun id => ?_) (funext fun batch => ?_)
  · change ((boot cfg w k).workers.get? id).map _ = _
    rw [h.workers]
    exact (Table.get?_insertAll_map k.workerRows PersistedWorker.id (fun pw => pw.hydrate w.now)
      Worker.place id).symm
  · change ((boot cfg w k).remotes.get? id).map _ = _
    rw [h.remotes]
    exact (Table.get?_insertAll_map k.remotesFile PersistedRemoteWorker.id
      PersistedRemoteWorker.reload RemoteWorker.place id).symm
  · change ((boot cfg w k).batches.get? batch).map _ = _
    rw [batches_boot cfg w hk]
    exact (Table.get?_insertAll_map k.batchRows PersistedBatch.batch PersistedBatch.hydrate
      BatchMeta.parent batch).symm

/-- Everybody named is known after a boot, unless rows were owed. -/
theorem sound_boot (cfg : Config) (w : World) (h : Sound R effs k) (howes : owes effs = false) :
    Sound (boot cfg w k).core.register effs k := by
  have hregister : (boot cfg w k).core.register = k.register := register_boot cfg w h.homed_disk
  rw [hregister]
  refine ⟨?_, ?_, ?_, rfl, rfl, fun _ _ hx => hx, ?_, h.kept howes, fun _ => h.kept howes⟩
  · intro id x hx
    by_contra hrow
    obtain ⟨y, hy⟩ := Option.ne_none_iff_exists'.mp hrow
    have hnone := h.apart id x (h.workers ▸ hx)
    rw [h.remotes id y hy] at hnone
    cases hnone
  · rw [h.workers, h.batches]
    exact h.homed
  · rw [h.batches]
    exact fun id x hx => h.rowHomed id x (h.remotes id x hx)
  · intro e he m hm
    obtain ⟨x, hget, hplace⟩ := h.named e he m hm
    exact ⟨x, h.workers ▸ hget, hplace⟩

theorem Restated.inert {e : Effect} (h : Restated d e) : e.inert = true := by
  rcases h with hplain | ⟨_, _, _, hcard⟩ | ⟨_, _, _, hcard⟩
  · exact inert_of_plain hplain
  · exact inert_of_isCard hcard
  · exact inert_of_isCard hcard

end Driver

theorem Sound.inerts (h : Sound R effs k) {done : List Effect}
    (hdone : ∀ e ∈ done, e.inert = true) :
    Sound R (effs ++ done) (done.foldl Disk.apply k) := by
  induction done generalizing effs k with
  | nil => simpa using h
  | cons e done ih =>
    rw [List.append_cons]
    exact ih (h.inert (hdone e (by simp))) fun e' he' => hdone e' (by simp [he'])

/-! ### Refused for want of a record -/

namespace Driver

variable {cfg : Config} {w : World} {d d' : Driver}

/-- What a fan-out that did not go through leaves: the books as they were, and nobody named. -/
structure Withheld (d d' : Driver) : Prop where
  workers : d'.workers = d.workers
  remotes : d'.remotes = d.remotes
  batches : d'.batches = d.batches
  out : ∃ effs, d'.out = d.out ++ effs ∧ ∀ e ∈ effs, e.inert = true

theorem FanOutcome.withheld {c : Cause} {went : Bool} (h : FanOutcome cfg w c d d' went) :
    went = false ∧ Withheld d d' ∨
      went = true ∧ ∃ txn effs, d'.out = d.out ++ .txn txn true :: effs := by
  cases h with
  | refused h =>
    obtain ⟨effs, hout, hplain⟩ := h.out
    exact Or.inl ⟨rfl, congrArg Core.workers h.core, congrArg Core.remotes h.core,
      congrArg Core.batches h.core, effs, hout, fun e he => inert_of_plain (hplain e he)⟩
  | lost h h' =>
    obtain ⟨txn, hout⟩ := h.out
    obtain ⟨effs, hout', hplain⟩ := h'.out
    have hcore := h'.core.trans h.core
    refine Or.inl ⟨rfl, congrArg Core.workers hcore, congrArg Core.remotes hcore,
      congrArg Core.batches hcore, .txn txn false :: effs, by simp [hout', hout], ?_⟩
    intro e he
    rcases List.mem_cons.mp he with rfl | he
    · rfl
    · exact inert_of_plain (hplain e he)
  | saved h hok h' =>
    rename_i d₁ b locals rows
    obtain ⟨effs, hout, -⟩ := out_saveWorkerState d₁ w
    obtain ⟨effs', hout'⟩ := h'.out_append
    refine Or.inr ⟨rfl, d₁.nextTxn, effs ++ effs', ?_⟩
    rw [hout', hout, hok, h.out]
    simp

/-- A fan-out is withheld, or its transaction is the first thing that is done. -/
theorem withheld_or_saved {i : Input} (hd : d.Fresh) (hi : i.fansOut = true) :
    Withheld { d with out := [] } (d.react cfg w i) ∨
      ∃ txn effs, (d.react cfg w i).out = .txn txn true :: effs := by
  have hd₀ : Fresh { d with out := [] } := ⟨hd.worker, hd.remote, hd.batch⟩
  cases i with
  | request session call tool args =>
    obtain rfl : tool = "task_fanout" := by simpa [Input.fansOut] using hi
    have hreact : d.react cfg w (.request session call "task_fanout" args) =
        Driver.taskFanout { d with out := [] } cfg w session call args := by
      simp [react, handle]
    have hfan : FanOutcome cfg w .review { d with out := [] } _ _ :=
      fanOutcome_fanout (by simp) hd₀ session call args
    rw [hreact]
    rcases hfan.withheld with ⟨hnone, h⟩ | ⟨-, txn, effs, h⟩
    · rw [taskFanout_of_none (Option.isNone_iff_eq_none.mp (by simpa using hnone))]
      exact Or.inl h
    · have hmoves :
        Moves cfg w .review (Driver.fanout { d with out := [] } cfg w session call args).1
        _ := moves_afterFanout session call args
      obtain ⟨effs', hout⟩ := hmoves.out_append
      exact Or.inr ⟨txn, effs ++ effs', by rw [hout, h]; rfl⟩
  | mesh req =>
    cases req with
    | fanout sender originBatch parent tasks deadlineS =>
      have hreact : d.react cfg w (.mesh (.fanout sender originBatch parent tasks deadlineS)) =
          Driver.meshRequest { d with out := [] } cfg w
            (.fanout sender originBatch parent tasks deadlineS) := rfl
      have hfan : FanOutcome cfg w .review { d with out := [] } _ _ :=
        fanOutcome_hostFanout (by simp) hd₀ sender originBatch parent tasks deadlineS
      rw [hreact]
      rcases hfan.withheld with ⟨hnot, h⟩ | ⟨-, txn, effs, h⟩
      · have hmesh : (Driver.handleMeshReq { d with out := [] } cfg w
          (.fanout sender originBatch parent tasks deadlineS)).2 = false := hnot
        rw [meshRequest_of_not hmesh]
        exact Or.inl h
      · have hdone : Handles cfg w _ (Driver.handleMeshReq { d with out := [] } cfg w
          (.fanout sender originBatch parent tasks deadlineS)).1 _ := handles_afterMesh _
        obtain ⟨effs', hout⟩ := hdone.out_append
        refine Or.inr ⟨txn, effs ++ effs', hout.trans ?_⟩
        exact congrArg (· ++ effs') h
    | _ => simp [Input.fansOut] at hi
  | _ => simp [Input.fansOut] at hi

/-- **Nothing is acknowledged without a durable record.** -/
theorem withholds (hd : d.Fresh) (i : Input) : Withholds cfg w d i := by
  intro hi hfate
  have houtcome : Withheld { d with out := [] } (d.react cfg w i) ∨ _ := withheld_or_saved hd hi
  rcases houtcome with h | ⟨txn, effs, hout⟩
  · obtain ⟨effs, hout, hinert⟩ := h.out
    refine ⟨h.workers, h.remotes, h.batches, fun e he => named_of_inert (hinert e ?_)⟩
    rw [hout] at he
    simpa using he
  · rw [hout] at hfate
    simp [List.findSome?_cons, Effect.txnFate] at hfate

end Driver

/-! ### Runs -/

namespace Node

variable {cfg : Config}

/-- What holds of a node between two happenings, after what was done. -/
structure Keeps (effs : List Effect) (n : Node) : Prop where
  fresh : n.driver.Fresh
  sound : Sound n.driver.core.register effs n.disk

theorem Keeps.forget {effs : List Effect} {n : Node} (h : Keeps effs n) : Keeps [] n :=
  ⟨h.fresh, h.sound.forget⟩

theorem keeps_booted (w : World) {R : Register} {effs : List Effect} {k : Disk} (h : Sound R effs k)
    (howes : owes effs = false) : Keeps (effs ++ (booted cfg w k).2) (booted cfg w k).1 := by
  have hboot := Driver.booted cfg w k
  refine ⟨hboot.fresh, (Driver.sound_boot cfg w h howes).inerts fun e he => ?_⟩
  exact (hboot.out e he).inert

theorem keeps_step {past : List (Happening × List Effect)} {n : Node} {e : Happening}
    (h : Keeps (effects past) n) (hends : n.EndsSaved cfg past e) :
    Keeps (effects (past ++ [(e, (step cfg n e).2)])) (step cfg n e).1 := by
  have heffects : effects (past ++ [(e, (step cfg n e).2)]) = effects past ++ (step cfg n e).2 := by
    simp [effects]
  rw [heffects]
  cases e with
  | handled w i =>
    exact ⟨Driver.fresh_react h.fresh i, (Driver.covered_react h.fresh h.sound i).now⟩
  | crashed w i effects bootWorld =>
    have hcovered : Covered _ _ _ (n.driver.react cfg w i).out :=
      Driver.covered_react h.fresh h.sound i
    obtain ⟨R, hcut⟩ := hcovered.cut _ (List.take_prefix effects _)
    rw [show (step cfg n (.crashed w i effects bootWorld)).2 = _ ++ _ from rfl, ← List.append_assoc]
    exact keeps_booted bootWorld hcut hends
  | restarted bootWorld => exact keeps_booted bootWorld h.sound hends

/-- The files, wherever a handler is cut off. -/
theorem Keeps.cut {n : Node} (h : Keeps [] n) (w : World) (i : Driver.Input) (effects : ℕ) :
    ∃ R, Sound R [] (((n.driver.react cfg w i).out.take effects).foldl Disk.apply n.disk) := by
  have hcovered : Covered [] n.disk _ (n.driver.react cfg w i).out :=
    Driver.covered_react h.fresh h.sound i
  obtain ⟨R, hcut⟩ := hcovered.cut _ (List.take_prefix effects _)
  exact ⟨R, hcut.forget⟩

theorem keeps_nil_handled {n : Node} (h : Keeps [] n) (w : World) (i : Driver.Input) :
    Keeps [] (step cfg n (.handled w i)).1 := by
  have hcovered : Covered [] n.disk _ (n.driver.react cfg w i).out :=
    Driver.covered_react h.fresh h.sound i
  exact Keeps.forget ⟨Driver.fresh_react h.fresh i, hcovered.now⟩

theorem keeps_nil_booted (w : World) {R : Register} {k : Disk} (h : Sound R [] k) :
    Keeps [] (booted cfg w k).1 := by
  have hbooted : Keeps ([] ++ _) (booted cfg w k).1 := keeps_booted w h rfl
  exact hbooted.forget

/-- What holds of a node apart from the names, holds whatever happens. -/
theorem keeps_nil_step {n : Node} (h : Keeps [] n) (e : Happening) : Keeps [] (step cfg n e).1 := by
  cases e with
  | handled w i => exact keeps_nil_handled h w i
  | crashed w i effects bootWorld =>
    obtain ⟨R, hcut⟩ := @Keeps.cut cfg n h w i effects
    exact keeps_nil_booted bootWorld hcut
  | restarted w => exact keeps_nil_booted w h.sound

/-- Everybody named is known, from what holds of a node. -/
theorem Keeps.honours {effs : List Effect} {n : Node} (h : Keeps effs n) :
    n.driver.Honours effs := by
  obtain ⟨hfresh, hs⟩ := h
  have hledger {batch : ℕ} {p : SessionId} (hp : n.driver.core.register.batches batch = some p) :
      n.driver.batches.contains batch = true := by
    obtain ⟨b, hget, -⟩ := Option.map_eq_some_iff.mp hp
    exact Table.contains_iff.mpr ⟨b, hget⟩
  refine ⟨?_, ?_, ?_, ?_, ?_⟩
  · intro e he m hm
    obtain ⟨x, hregister, hbatch, hsession⟩ := hs.named e he m hm
    obtain ⟨wk, hget, rfl⟩ := Option.map_eq_some_iff.mp hregister
    exact ⟨wk, hget, hsession, hbatch⟩
  · intro e he m hm
    obtain ⟨x, hregister, hbatch, hnode⟩ := hs.namedRow e he m hm
    obtain ⟨r, hget, rfl⟩ := Option.map_eq_some_iff.mp hregister
    exact ⟨r, hget, hnode, hbatch⟩
  · intro e he
    refine ⟨fun m hm => ?_, fun m hm => ?_⟩
    · obtain ⟨x, hget, hbatch, -⟩ := hs.named e he m hm
      exact hledger (hbatch ▸ hs.homed _ x hget)
    · obtain ⟨x, hget, hbatch, -⟩ := hs.namedRow e he m hm
      exact hledger (hbatch ▸ hs.rowHomed _ x hget)
  · intro id hid
    obtain ⟨wk, hget⟩ := Table.contains_iff.mp hid
    have hrow := hs.apart id wk.place (Option.map_eq_some_iff.mpr ⟨wk, hget, rfl⟩)
    exact Option.isSome_eq_false_iff.mpr
      (Option.isNone_iff_eq_none.mpr (Option.map_eq_none_iff.mp hrow))
  · rintro id (hid | hid)
    · obtain ⟨wk, hget⟩ := Table.contains_iff.mp hid
      exact hfresh.worker _ (Table.mem_of_get? hget)
    · obtain ⟨r, hget⟩ := Table.contains_iff.mp hid
      exact hfresh.remote _ (Table.mem_of_get? hget)

theorem sound_blank : Sound Disk.blank.register [] Disk.blank := by
  refine ⟨?_, ?_, ?_, rfl, rfl, fun _ _ h => h, by simp, by simp, by simp⟩ <;>
    exact fun _ _ h => nomatch h

/-- What the first boot said is no part of the run. -/
theorem keeps_fresh (cfg : Config) (w : World) : Keeps [] (fresh cfg w) :=
  keeps_nil_booted w sound_blank

/-- **What was acknowledged is known**, in every run of a new node in which no process ends with
mirror rows it has named and not written: everybody named so far is known, and a fan-out whose
transaction is not written leaves the books as they were and names nobody. -/
theorem honours_of_endsSaved (cfg : Config) (w : World) (es : List Happening)
    (h : Run.Always (step cfg) (fresh cfg w) (fun past n e => n.EndsSaved cfg past e) es) :
    (Run.final (step cfg) (fresh cfg w) es).driver.Honours
      (effects (Run.log (step cfg) (fresh cfg w) es)) ∧
    ∀ w' i, (Run.final (step cfg) (fresh cfg w) es).driver.Withholds cfg w' i := by
  have hkeeps := Run.invariant (I := fun past n => Keeps (effects past) n) (keeps_fresh cfg w)
    (fun past n e hn he => keeps_step hn he) h
  exact ⟨hkeeps.honours, fun w' i => Driver.withholds hkeeps.fresh i⟩

/-- A fan-out of one task here and one for a peer. -/
def sharedFan : Driver.Input :=
  .request 7 1 "task_fanout" (.object [("tasks", .array [.string "one",
    .object [("prompt", .string "two"), ("node", .string "peer")]])])

theorem honours_sharedFan :
    Run.Always (step .small) (fresh .small (.calm 0)) (fun past n e => n.EndsSaved .small past e)
      [.handled (.calm 0) sharedFan, .restarted (.calm 5)] ∧
    (Run.final (step .small) (fresh .small (.calm 0))
      [.handled (.calm 0) sharedFan, .restarted (.calm 5)]).driver.Honours
        (effects (Run.log (step .small) (fresh .small (.calm 0))
          [.handled (.calm 0) sharedFan, .restarted (.calm 5)])) := by
  have hends : Run.Always (step .small) (fresh .small (.calm 0))
      (fun past n e => n.EndsSaved .small past e)
      [.handled (.calm 0) sharedFan, .restarted (.calm 5)] := by
    simp only [Run.always_cons]
    refine ⟨trivial, ?_, Run.Always.nil⟩
    change owes _ = false
    decide +kernel
  exact ⟨hends, (honours_of_endsSaved _ _ _ hends).1⟩

/-- The process ends right after the result that names worker 2, on the peer: the files do not have
it, and its id is minted again. -/
theorem not_honours_forgottenRow :
    ¬ (Run.final (step .small) (fresh .small (.calm 0))
      [.crashed (.calm 0) sharedFan 6 (.calm 1)]).driver.Honours
        (effects (Run.log (step .small) (fresh .small (.calm 0))
          [.crashed (.calm 0) sharedFan 6 (.calm 1)])) := by
  intro h
  have hnamed : (effects (Run.log (step .small) (fresh .small (.calm 0))
      [.crashed (.calm 0) sharedFan 6 (.calm 1)])).any
        (fun e => (⟨2, "peer", 1⟩ : RemoteMention) ∈ e.namedRemote) = true := by
    decide +kernel
  have hgone : (Run.final (step .small) (fresh .small (.calm 0))
      [.crashed (.calm 0) sharedFan 6 (.calm 1)]).driver.remotes.get? 2 = none := by
    decide +kernel
  obtain ⟨e, he, hm⟩ := List.any_eq_true.mp hnamed
  obtain ⟨r, hget, -⟩ := h.remote e he ⟨2, "peer", 1⟩ (by simpa using hm)
  rw [hgone] at hget
  cases hget

end Node

end ApexOS.Fabrica

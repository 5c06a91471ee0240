import ApexOS.Fabrica.Durable

/-!
# The trail of a worker and the report of a batch

A worker that has ended stays as it ended. Its evidence is written once, when it ends, and its
episode is closed then or never; a batch reports once, when all its workers have ended or its
deadline has passed, and the report lists its workers as they are.

Within a process this holds of every run. Across a restart it rests on the transaction: saves other
than a fan-out's are best-effort, and a process that ends after one that failed forgets what had
ended and what had been reported. So a restart is taken where the last save was made.

`Standing` is what the argument follows: who has ended, and how, and which batches have reported.
`Advance` is the trail that leads from one standing to another; every move of the driver makes one,
and they compose. The rest is that each handler saves last whatever standing it has come to.

## Main definitions

* `Standing`, `Advance`: who has ended, and the effects that go with it
* `Driver.Reports`: what a report says, and when it is due
* `Node.settled`, `Node.RestartsSaved`: restarts are taken where the last save was made
* `Node.TrailKept`: the law

## Main results

* `Driver.Move.advance`: a move leaves the trail that its ends call for
* `Driver.recorded_react`: a handler saves last what it has come to
* `Node.trailKept_of_restartsSaved`: the law, over every run
-/

namespace ApexOS.Fabrica

open ApexOS.Agentd (SessionId ActionId WorkerState)

/-! ### The law -/

namespace Driver

/-- **What a report says**, and that it was due: every worker of the batch, here and on peers, has
one row, which gives its state and says whether it has not ended, and nobody else has one; all of
them have ended, or the deadline has passed. -/
structure Reports (d : Driver) (w : World) (batch : ℕ) (parent : SessionId) (rows : List Row) :
    Prop where
  worker : ∀ id wk, d.workers.get? id = some wk → wk.batch = batch → ∃ row ∈ rows,
    row.worker = id ∧ row.node = none ∧ row.state = wk.state ∧ row.timedOut = !wk.isTerminal
  remote : ∀ id r, d.remotes.get? id = some r → r.batch = batch → ∃ row ∈ rows,
    row.worker = id ∧ row.node = some r.node ∧ row.timedOut = !r.isTerminal
  member : ∀ row ∈ rows, (∃ wk, d.workers.get? row.worker = some wk ∧ wk.batch = batch) ∨
    ∃ r, d.remotes.get? row.worker = some r ∧ r.batch = batch
  once : (rows.map Row.worker).Nodup
  due : ∃ b, d.batches.get? batch = some b ∧ b.parent = parent ∧
    ((∀ row ∈ rows, row.timedOut = false) ∨ b.expired w.epoch = true)

end Driver

namespace Node

/-- The fates of the saves of a happening. The one transaction of a fan-out that is refused for it
is no save: nothing has changed. -/
def saves : Happening × List Effect → List Bool
  | (.handled _ i, out) =>
    let fates := out.filterMap Effect.txnFate
    if i.fansOut && fates = [false] then [] else fates
  | (_, out) => out.filterMap Effect.txnFate

/-- The last save was made. -/
def settled (past : List (Happening × List Effect)) : Bool :=
  (past.flatMap saves).getLast?.getD true

/-- No handler is cut off, and restarts are taken where the last save was made. -/
def RestartsSaved (past : List (Happening × List Effect)) : Happening → Prop
  | .handled .. => True
  | .crashed .. => False
  | .restarted _ => settled past = true

/-- **The law**, of one happening after what was done before. -/
structure TrailKept (cfg : Config) (past : List (Happening × List Effect)) (n : Node)
    (e : Happening) : Prop where
  ended : ∀ id wk, n.driver.workers.get? id = some wk → wk.isTerminal = true →
    ∃ wk', (step cfg n e).1.driver.workers.get? id = some wk' ∧ wk'.state = wk.state
  evidence : ∀ id, (effects past ++ (step cfg n e).2).countP (Effect.isEvidence id) =
    if ((step cfg n e).1.driver.workers.get? id).any Worker.isTerminal then 1 else 0
  episodeEnd : ∀ id, (effects past ++ (step cfg n e).2).countP (Effect.isEpisodeEnd id) ≤ 1
  report : ∀ batch, (effects past ++ (step cfg n e).2).countP (Effect.isReport batch) =
    if ((step cfg n e).1.driver.batches.get? batch).any BatchMeta.reported then 1 else 0
  rows : ∀ batch parent rows, .event (.taskBatchDone batch parent rows) ∈ (step cfg n e).2 →
    ∃ w i, e = .handled w i ∧ (step cfg n e).1.driver.Reports w batch parent rows
  tick : ∀ w, e = .handled w .tick → ∀ batch b,
    (step cfg n e).1.driver.batches.get? batch = some b →
      due (step cfg n e).1.driver.workers (step cfg n e).1.driver.remotes w.epoch batch b = false

end Node

/-! ### Standings -/

/-- The state a worker has ended in. -/
def endState (s : WorkerState) : Option WorkerState := if terminal s then some s else none

/-- Who has ended, and in which state, and which batches have reported. -/
@[ext] structure Standing where
  ended : ℕ → Option WorkerState
  reported : ℕ → Bool

/-- Nobody has ended. -/
def Standing.none : Standing := ⟨fun _ => .none, fun _ => false⟩

/-- The standing of the books. -/
def Driver.Core.standing (c : Driver.Core) : Standing where
  ended id := (c.workers.get? id).bind fun wk => endState wk.state
  reported batch := (c.batches.get? batch).any BatchMeta.reported

/-- The standing of the files. -/
def Disk.standing (k : Disk) : Standing where
  ended id := ((Table.empty.insertAll (k.workerRows.map fun pw => (pw.id, pw.state))).get? id).bind
    endState
  reported batch := ((Table.empty.insertAll (k.batchRows.map fun pb =>
    (pb.batch, pb.reported))).get? batch).getD false

/-- **The trail from one standing to another**: nothing is taken back, there is one piece of
evidence for each end and no episode is closed without one, and one report for each batch that
reported. -/
structure Advance (S S' : Standing) (effs : List Effect) : Prop where
  ended : ∀ id s, S.ended id = some s → S'.ended id = some s
  evidence : ∀ id, (S.ended id).isSome.toNat + effs.countP (Effect.isEvidence id) =
    (S'.ended id).isSome.toNat
  episodeEnd : ∀ id, effs.countP (Effect.isEpisodeEnd id) ≤ effs.countP (Effect.isEvidence id)
  report : ∀ batch, (S.reported batch).toNat + effs.countP (Effect.isReport batch) =
    (S'.reported batch).toNat

namespace Effect

/-- Nothing of a trail, and no report. -/
def traceless : Effect → Bool
  | .evidence .. | .episodeEnd .. | .event (.taskBatchDone ..) => false
  | _ => true

/-- No transaction, and none of the older files. -/
def offBooks : Effect → Bool
  | .txn .. | .workersFile .. | .batchesFile .. => false
  | _ => true

end Effect

section Advance

variable {S S' S'' : Standing} {effs effs' : List Effect} {e : Effect} {id batch : ℕ}

theorem isEvidence_of_traceless (h : e.traceless = true) : e.isEvidence id = false := by
  cases e with
  | evidence => cases h
  | _ => rfl

theorem isEpisodeEnd_of_traceless (h : e.traceless = true) : e.isEpisodeEnd id = false := by
  cases e with
  | episodeEnd => cases h
  | _ => rfl

theorem isReport_of_traceless (h : e.traceless = true) : e.isReport batch = false := by
  cases e with
  | event ev =>
    cases ev with
    | taskBatchDone => cases h
    | _ => rfl
  | _ => rfl

/-- Nothing happens. -/
theorem Advance.of_traceless (S : Standing) (h : ∀ e ∈ effs, e.traceless = true) :
    Advance S S effs := by
  have hevidence (id : ℕ) : effs.countP (Effect.isEvidence id) = 0 :=
    List.countP_eq_zero.mpr fun e he => by simp [isEvidence_of_traceless (h e he)]
  have hepisode (id : ℕ) : effs.countP (Effect.isEpisodeEnd id) = 0 :=
    List.countP_eq_zero.mpr fun e he => by simp [isEpisodeEnd_of_traceless (h e he)]
  have hreport (batch : ℕ) : effs.countP (Effect.isReport batch) = 0 :=
    List.countP_eq_zero.mpr fun e he => by simp [isReport_of_traceless (h e he)]
  refine ⟨fun _ _ h => h, fun id => ?_, fun id => ?_, fun batch => ?_⟩
  · rw [hevidence, Nat.add_zero]
  · rw [hevidence, hepisode]
  · rw [hreport, Nat.add_zero]

/-- Trails compose. -/
theorem Advance.trans (h : Advance S S' effs) (h' : Advance S' S'' effs') :
    Advance S S'' (effs ++ effs') := by
  refine ⟨fun id s hs => h'.ended id s (h.ended id s hs), fun id => ?_, fun id => ?_,
    fun batch => ?_⟩
  · rw [List.countP_append, ← Nat.add_assoc, h.evidence, h'.evidence]
  · rw [List.countP_append, List.countP_append]
    exact Nat.add_le_add (h.episodeEnd id) (h'.episodeEnd id)
  · rw [List.countP_append, ← Nat.add_assoc, h.report, h'.report]

theorem Advance.cons (h : Advance S S' [e]) (h' : Advance S' S'' effs) :
    Advance S S'' (e :: effs) :=
  h.trans h'

end Advance

/-! ### Moves -/

namespace Driver

variable {cfg : Config} {w : World} {c : Cause} {d d' : Driver} {id : ℕ} {wk wk' : Worker}
  {effs : List Effect}

theorem endState_isSome (s : WorkerState) : (endState s).isSome = terminal s := by
  unfold endState
  split <;> simp_all

theorem traceless_of_plain {e : Effect} (h : e.plain = true) : e.traceless = true := by
  cases e with
  | event ev =>
    cases ev with
    | taskBatchDone => cases h
    | _ => rfl
  | evidence | episodeEnd => cases h
  | _ => rfl

theorem traceless_of_isCard {e : Effect} {batch : ℕ} {parent : SessionId}
    (h : e.isCard batch parent = true) : e.traceless = true := by
  cases e with
  | event ev =>
    cases ev with
    | workerStateChanged => rfl
    | _ => cases h
  | _ => cases h

theorem traceless_of_isMirror {e : Effect} (h : e.isMirror = true) : e.traceless = true := by
  cases e with
  | workersFile | batchesFile => rfl
  | _ => cases h

theorem standing_worker (hget : d.workers.get? id = some wk)
    (h : endState wk'.state = endState wk.state) :
    ({ d.core with workers := d.workers.modify id fun _ => wk' } : Core).standing =
      d.core.standing := by
  refine Standing.ext (funext fun id' => ?_) rfl
  change ((d.workers.modify id fun _ => wk').get? id').bind _ = (d.workers.get? id').bind _
  rw [Table.get?_modify]
  split
  · rename_i hid
    rw [hid, hget]
    exact h
  · rfl

/-- What a fan-out mints has not ended, and its batch has not reported. -/
theorem Fanned.standing {b : BatchMeta} {locals : List (ℕ × Worker)}
    {rows : List (ℕ × RemoteWorker)}
    (h : Fanned d d' b locals rows) (hd : d.Fresh) : d'.core.standing = d.core.standing := by
  refine Standing.ext (funext fun id => ?_) (funext fun batch => ?_)
  · change (d'.workers.get? id).bind _ = (d.workers.get? id).bind _
    cases hget : d.workers.get? id with
    | some wk =>
      have hkeep : d'.workers.get? id = some wk := by
        rw [← Table.mem_iff_get?, h.workers]
        exact List.mem_append_left _ (Table.mem_of_get? hget)
      rw [hkeep]
    | none =>
      cases hget' : d'.workers.get? id with
      | none => rfl
      | some wk =>
        rw [← Table.mem_iff_get?, h.workers] at hget'
        rcases List.mem_append.mp hget' with hold | hnew
        · rw [Table.mem_iff_get?.mp hold] at hget
          cases hget
        · have hqueued : wk.state = .queued := (h.minted _ hnew).2.2.1
          change endState wk.state = none
          rw [hqueued]
          rfl
  · change (d'.batches.get? batch).any _ = (d.batches.get? batch).any _
    rw [h.batches, Table.get?_insert]
    split
    · rename_i hbatch
      have hnone : d.batches.get? d.nextBatchId = none :=
        Table.get?_eq_none_of_forall fun x hx => Nat.ne_of_lt (hd.batch x hx)
      rw [hbatch, hnone]
      simp [h.unreported]
    · rfl

/-- Evidence of one worker is not evidence of another. -/
theorem Trail.countP_of_ne (h : Trail id wk wk' effs) {id' : ℕ} (hne : id' ≠ id) :
    effs.countP (Effect.isEvidence id') = 0 ∧ effs.countP (Effect.isEpisodeEnd id') = 0 := by
  have hkinds (e : Effect) (he : e ∈ effs) :
      e.isEvidence id' = false ∧ e.isEpisodeEnd id' = false := by
    rcases h.kinds e he with he | he | he | he
    · exact ⟨isEvidence_of_plain he, isEpisodeEnd_of_plain he⟩
    · exact ⟨isEvidence_of_isCard he, isEpisodeEnd_of_isCard he⟩
    · cases e with
      | evidence id'' =>
        have hid : id'' = id := by simpa [Effect.isEvidence] using he
        exact ⟨by simp [Effect.isEvidence, hid, hne.symm], rfl⟩
      | _ => cases he
    · cases e with
      | episodeEnd id'' =>
        have hid : id'' = id := by simpa [Effect.isEpisodeEnd] using he
        exact ⟨rfl, by simp [Effect.isEpisodeEnd, hid, hne.symm]⟩
      | _ => cases he
  exact ⟨List.countP_eq_zero.mpr fun e he => by simp [(hkinds e he).1],
    List.countP_eq_zero.mpr fun e he => by simp [(hkinds e he).2]⟩

theorem Trail.countP_isReport (h : Trail id wk wk' effs) (batch : ℕ) :
    effs.countP (Effect.isReport batch) = 0 := by
  refine List.countP_eq_zero.mpr fun e he => ?_
  rcases h.kinds e he with he | he | he | he
  · simp [isReport_of_traceless (traceless_of_plain he)]
  · simp [isReport_of_traceless (traceless_of_isCard he)]
  · cases e with
    | evidence => simp [Effect.isReport]
    | _ => cases he
  · cases e with
    | episodeEnd => simp [Effect.isReport]
    | _ => cases he

/-- A worker's step, with its trail. -/
theorem Trail.advance (h : Trail id wk wk' effs) (hget : d.workers.get? id = some wk)
    (hended : wk.isTerminal = true → wk'.state = wk.state) : Advance d.core.standing
      ({ d.core with workers := d.workers.modify id fun _ => wk' } : Core).standing effs := by
  have hget' (id' : ℕ) (hne : id' ≠ id) : (d.workers.modify id fun _ => wk').get? id' =
      d.workers.get? id' := Table.get?_modify_of_ne hne
  have hself : (d.workers.modify id fun _ => wk').get? id = some wk' := by
    rw [Table.get?_modify_self, hget]
    rfl
  have hterm (x : Worker) : (endState x.state).isSome = x.isTerminal := endState_isSome x.state
  refine ⟨?_, ?_, ?_, ?_⟩
  · intro id' s hs
    change (d.workers.get? id').bind _ = some s at hs
    change ((d.workers.modify id fun _ => wk').get? id').bind _ = some s
    by_cases hid : id' = id
    · rw [hid, hget] at hs
      rw [hid, hself]
      have hwk : wk.isTerminal = true := by
        rw [← hterm wk, show endState wk.state = some s from hs]
        rfl
      change endState wk'.state = some s
      rw [hended hwk]
      exact hs
    · rwa [hget' id' hid]
  · intro id'
    change ((d.workers.get? id').bind _).isSome.toNat + _ =
      (((d.workers.modify id fun _ => wk').get? id').bind _).isSome.toNat
    by_cases hid : id' = id
    · rw [hid, hget, hself, h.evidence]
      change (endState wk.state).isSome.toNat + _ = (endState wk'.state).isSome.toNat
      rw [hterm, hterm]
      cases hwk : wk.isTerminal with
      | false => cases wk'.isTerminal <;> rfl
      | true =>
        have hwk' : wk'.isTerminal = true := by
          rw [Worker.isTerminal, hended hwk]
          exact hwk
        rw [hwk']
        rfl
    · rw [hget' id' hid, (h.countP_of_ne hid).1, Nat.add_zero]
  · intro id'
    by_cases hid : id' = id
    · rw [hid]
      exact h.episodeEnd
    · rw [(h.countP_of_ne hid).2]
      exact Nat.zero_le _
  · intro batch
    rw [h.countP_isReport, Nat.add_zero]
    rfl

theorem traceless_of_follows {batch : ℕ} {rows : List Row} {e : Effect} (h : Follows batch rows e) :
    e.traceless = true := by
  rcases h with h | ⟨session, call, d, rfl⟩
  · exact traceless_of_plain h
  · rfl

/-- A batch reports. -/
theorem advance_report {batch : ℕ} {b : BatchMeta} (hget : d.batches.get? batch = some b)
    (hb : b.reported = false) : ∃ effs, (reportBatch cfg d batch).out = d.out ++ effs ∧
      Advance d.core.standing (reportBatch cfg d batch).core.standing effs := by
  obtain ⟨hcore, tail, hout, htail⟩ := @reportBatch_spec cfg d _ _ hget
  refine ⟨_, hout, ?_⟩
  rw [hcore]
  have htraceless (e : Effect) (he : e ∈ tail) : e.traceless = true :=
    traceless_of_follows (htail e he)
  refine Advance.cons ?_ (.of_traceless _ htraceless)
  refine ⟨fun _ _ h => h, fun id => rfl, fun id => le_rfl, fun batch' => ?_⟩
  change ((d.batches.get? batch').any _).toNat + _ =
    (((d.batches.modify batch fun b => { b with reported := true, inlineAck := none }).get?
      batch').any _).toNat
  by_cases hne : batch' = batch
  · rw [hne, hget, Table.get?_modify_self, hget]
    simp [hb, Effect.isReport]
  · rw [Table.get?_modify_of_ne hne]
    simp [Effect.isReport, Ne.symm hne]

/-- **A move leaves the trail that its ends call for.** -/
theorem Move.advance (h : Move cfg w c d d') (hd : d.Fresh) :
    ∃ effs, d'.out = d.out ++ effs ∧ Advance d.core.standing d'.core.standing effs := by
  cases h with
  | aside h =>
    obtain ⟨effs, hout, hplain⟩ := h.out
    rw [h.core]
    exact ⟨effs, hout, .of_traceless _ fun e he => traceless_of_plain (hplain e he)⟩
  | admission hc hcap hnext hget =>
    rename_i id wk
    obtain ⟨hcore, effs, hout, hplain⟩ := admitOne_spec d cfg w id wk
    have hqueued : wk.state = .queued := by
      have := admissible_of_nextQueued hnext hget
      simp_all [Worker.admissible]
    refine ⟨_, hout, ?_⟩
    rw [hcore, standing_worker hget (by rw [hqueued]; rfl)]
    refine .of_traceless _ fun e he => ?_
    rcases List.mem_append.mp he with he | he
    · exact traceless_of_plain (hplain e he)
    · rcases List.mem_pair.mp he with rfl | rfl <;> rfl
  | life hget hlife hcore hout htrail =>
    rw [hcore]
    exact ⟨_, hout, htrail.advance hget hlife.ended⟩
  | card hget => exact ⟨_, rfl, .of_traceless _ (by simp [Effect.traceless])⟩
  | remoteCard hget => exact ⟨_, rfl, .of_traceless _ (by simp [Effect.traceless])⟩
  | remote hc hget hsame hcore hout heffs =>
    rw [hcore]
    exact ⟨_, hout, .of_traceless _ fun e he =>
      (heffs e he).elim traceless_of_plain traceless_of_isCard⟩
  | fan hc hfan hok =>
    rename_i d₁ b locals rows
    obtain ⟨effs, hout, hmirrors, -⟩ := out_saveWorkerState d₁ w
    rw [core_saveWorkerState, hfan.out] at *
    refine ⟨_, hout, ?_⟩
    change Advance d.core.standing d₁.core.standing _
    rw [hfan.standing hd]
    refine .of_traceless _ fun e he => ?_
    rcases List.mem_cons.mp he with rfl | he
    · rfl
    · exact traceless_of_isMirror (hmirrors e he)
  | lost hn hm hcore hout =>
    rw [hcore]
    exact ⟨_, hout, .of_traceless _ (by simp [Effect.traceless])⟩
  | save =>
    obtain ⟨effs, hout, hmirrors, -⟩ := out_saveWorkerState d w
    rw [core_saveWorkerState]
    refine ⟨_, hout, .of_traceless _ fun e he => ?_⟩
    rcases List.mem_cons.mp he with rfl | he
    · rfl
    · exact traceless_of_isMirror (hmirrors e he)
  | saveRemotes => exact ⟨_, rfl, .of_traceless _ (by simp [Effect.traceless])⟩
  | report hc hget hdue =>
    refine advance_report hget ?_
    simp_all [due]
  | fanned hlocal hremote => exact ⟨_, rfl, .of_traceless _ (by simp [Effect.traceless])⟩
  | accepted hlocal => exact ⟨_, rfl, .of_traceless _ (by simp [Effect.traceless])⟩

/-- A turn of the loop leaves the trail that its ends call for. -/
theorem advance_react (hd : d.Fresh) (i : Input) :
    Advance d.core.standing (d.react cfg w i).core.standing (d.react cfg w i).out := by
  refine (react_induction (P := fun d' => Advance d.core.standing d'.core.standing d'.out) hd
    (.of_traceless _ (by simp)) i fun c d₁ d₂ _ hmove hfresh h => ?_).1
  obtain ⟨effs, hout, hadvance⟩ := hmove.advance hfresh
  rw [hout]
  exact h.trans hadvance

end Driver

/-! ### Saves -/

section Saves

variable {k : Disk} {e : Effect} {effs : List Effect}

theorem standing_apply_of_offBooks (h : e.offBooks = true) : (k.apply e).standing = k.standing := by
  cases e with
  | txn | workersFile | batchesFile => cases h
  | remotesFile rows ok => cases ok <;> rfl
  | mandalasFile rows ok => cases ok <;> rfl
  | cellFile mandala cell ok => cases ok <;> rfl
  | _ => rfl

theorem standing_foldl_of_offBooks (h : ∀ e ∈ effs, e.offBooks = true) :
    (effs.foldl Disk.apply k).standing = k.standing := by
  induction effs generalizing k with
  | nil => rfl
  | cons e effs ih =>
    exact (ih fun e' he' => h e' (by simp [he'])).trans (standing_apply_of_offBooks (h e (by simp)))

/-- With a transaction on the disk, the older files are not read. -/
theorem standing_apply_of_isMirror (h : e.isMirror = true) (hk : k.loadWorkerTxn.isSome = true) :
    (k.apply e).standing = k.standing ∧ (k.apply e).loadWorkerTxn.isSome = true := by
  obtain ⟨txn, htxn⟩ := Option.isSome_iff_exists.mp hk
  have of_txn {k' : Disk} (hload : k'.loadWorkerTxn = k.loadWorkerTxn) :
      k'.standing = k.standing ∧ k'.loadWorkerTxn.isSome = true := by
    refine ⟨?_, hload ▸ hk⟩
    simp only [Disk.standing, Disk.workerRows, Disk.batchRows, hload, htxn, Option.elim]
  cases e with
  | workersFile rows ok => cases ok <;> exact of_txn rfl
  | batchesFile rows ok => cases ok <;> exact of_txn rfl
  | _ => cases h

/-- A written transaction has the standing of the books. -/
theorem standing_apply_txn (k : Disk) (d : Driver) :
    (k.apply (.txn d.nextTxn true)).standing = d.core.standing := by
  have hload : (k.apply (.txn d.nextTxn true)).loadWorkerTxn = some d.nextTxn := by
    simp [Disk.apply, Disk.loadWorkerTxn, Driver.nextTxn, workerTxnVersion]
  refine Standing.ext (funext fun id => ?_) (funext fun batch => ?_)
  · simp only [Disk.standing, Disk.workerRows, hload, Option.elim]
    have hget := get?_snapshotWorkers d.workers PersistedWorker.state id
    refine (congrArg (Option.bind · endState) hget).trans ?_
    rw [Option.bind_map]
    rfl
  · simp only [Disk.standing, Disk.batchRows, hload, Option.elim]
    have hget := get?_snapshotBatches d.batches PersistedBatch.reported batch
    refine (congrArg (Option.getD · false) hget).trans ?_
    change _ = (d.batches.get? batch).any BatchMeta.reported
    cases d.batches.get? batch <;> rfl

theorem standing_saved (k : Disk) (d : Driver) (h : ∀ e ∈ effs, e.isMirror = true) :
    ((.txn d.nextTxn true :: effs).foldl Disk.apply k).standing = d.core.standing := by
  suffices hmirrors : ∀ (effs : List Effect) (k : Disk), (∀ e ∈ effs, e.isMirror = true) →
      k.loadWorkerTxn.isSome = true → (effs.foldl Disk.apply k).standing = k.standing from
    (hmirrors effs _ h (register_apply_txn k d).1).trans (standing_apply_txn k d)
  intro effs
  induction effs with
  | nil => exact fun k _ _ => rfl
  | cons e effs ih =>
    intro k h hk
    obtain ⟨hstanding, hload⟩ := standing_apply_of_isMirror (h e (by simp)) hk
    exact (ih _ (fun e' he' => h e' (by simp [he'])) hload).trans hstanding

end Saves

/-- The fate of the last transaction. -/
def lastFate (out : List Effect) : Option Bool := (out.filterMap Effect.txnFate).getLast?

namespace Driver

variable {cfg : Config} {w : World} {c : Cause} {d d' : Driver} {i : Input} {id : ℕ}
  {wk wk' : Worker} {S : Standing} {k : Disk} {effs : List Effect}

/-- What a handler, begun with the standing `S` and the files `k`, has recorded so far: with no
transaction there is nothing to record; if the last one was written, the disk is up to date. -/
structure Recorded (S : Standing) (k : Disk) (d : Driver) : Prop where
  unsaved : lastFate d.out = none →
    d.core.standing = S ∧ (d.out.foldl Disk.apply k).standing = k.standing
  saved : lastFate d.out = some true → (d.out.foldl Disk.apply k).standing = d.core.standing

/-- What a move writes: nothing of the books, or a transaction of what it has come to, or it fails
to. -/
inductive Writes (d d' : Driver) : Prop
  | off {effs : List Effect} (hout : d'.out = d.out ++ effs) (h : ∀ e ∈ effs, e.offBooks = true)
  | saved {d₁ : Driver} {effs : List Effect} (hstanding : d'.core.standing = d₁.core.standing)
      (hout : d'.out = d.out ++ .txn d₁.nextTxn true :: effs) (h : ∀ e ∈ effs, e.isMirror = true)
  | failed {txn : WorkerTxn} (hout : d'.out = d.out ++ [.txn txn false])

theorem lastFate_append_of_offBooks {out : List Effect} (h : ∀ e ∈ effs, e.offBooks = true) :
    lastFate (out ++ effs) = lastFate out := by
  have hnone : effs.filterMap Effect.txnFate = [] := by
    refine List.filterMap_eq_nil_iff.mpr fun e he => ?_
    cases e with
    | txn => cases h _ he
    | _ => rfl
  rw [lastFate, List.filterMap_append, hnone, List.append_nil]
  rfl

theorem lastFate_append_txn {out : List Effect} {txn : WorkerTxn} {ok : Bool}
    (h : ∀ e ∈ effs, e.isMirror = true) : lastFate (out ++ .txn txn ok :: effs) = some ok := by
  have hnone : effs.filterMap Effect.txnFate = [] := by
    refine List.filterMap_eq_nil_iff.mpr fun e he => ?_
    cases e with
    | txn => cases h _ he
    | _ => rfl
  have hone : (Effect.txn txn ok :: effs).filterMap Effect.txnFate = [ok] := by
    change ok :: effs.filterMap Effect.txnFate = [ok]
    rw [hnone]
  rw [lastFate, List.filterMap_append, hone]
  exact List.getLast?_concat

theorem standing_of_books (hworkers : d'.workers = d.workers) (hbatches : d'.batches = d.batches) :
    d'.core.standing = d.core.standing := by
  simp only [Core.standing, core_workers, core_batches, hworkers, hbatches]

theorem standing_saveWorkerState (d : Driver) (w : World) :
    (d.saveWorkerState w).core.standing = d.core.standing := by
  rw [core_saveWorkerState]
  rfl

/-- After a transaction of what the driver has come to. -/
theorem Recorded.of_saved {d₁ : Driver} {out : List Effect}
    (hstanding : d.core.standing = d₁.core.standing)
    (hout : d.out = out ++ .txn d₁.nextTxn true :: effs) (h : ∀ e ∈ effs, e.isMirror = true) :
    Recorded S k d := by
  have hfate : lastFate d.out = some true := by rw [hout, lastFate_append_txn h]
  refine ⟨fun hnone => ?_, fun _ => ?_⟩
  · rw [hfate] at hnone
    cases hnone
  · rw [hout, List.foldl_append, hstanding]
    exact standing_saved _ _ h

theorem Recorded.of_failed {out : List Effect} {txn : WorkerTxn}
    (hout : d.out = out ++ [.txn txn false]) : Recorded S k d := by
  have hfate : lastFate d.out = some false := by rw [hout, lastFate_append_txn (by simp)]
  refine ⟨fun hnone => ?_, fun hsome => ?_⟩
  · rw [hfate] at hnone
    cases hnone
  · rw [hfate] at hsome
    cases hsome

theorem Writes.recorded (h : Writes d d') (hstanding : d'.core.standing = d.core.standing)
    (hr : Recorded S k d) : Recorded S k d' := by
  cases h with
  | off hout hoff =>
    have hdisk : (d'.out.foldl Disk.apply k).standing = (d.out.foldl Disk.apply k).standing := by
      rw [hout, List.foldl_append]
      exact standing_foldl_of_offBooks hoff
    have hfate : lastFate d'.out = lastFate d.out := by rw [hout, lastFate_append_of_offBooks hoff]
    refine ⟨fun hnone => ?_, fun hsome => ?_⟩
    · rw [hstanding, hdisk]
      exact hr.unsaved (hfate ▸ hnone)
    · rw [hstanding, hdisk]
      exact hr.saved (hfate ▸ hsome)
  | saved hstanding' hout hmirrors => exact .of_saved hstanding' hout hmirrors
  | failed hout => exact .of_failed hout

theorem writes_saveWorkerState (d : Driver) (w : World) : Writes d (d.saveWorkerState w) := by
  obtain ⟨effs, hout, hmirrors, hnone⟩ := out_saveWorkerState d w
  cases hok : w.written d.out.length with
  | true => exact .saved (standing_saveWorkerState d w) (hok ▸ hout) hmirrors
  | false =>
    rw [hok, hnone hok] at hout
    exact .failed hout

theorem recorded_saveWorkerState (d : Driver) (w : World) : Recorded S k (d.saveWorkerState w) := by
  obtain ⟨effs, hout, hmirrors, hnone⟩ := out_saveWorkerState d w
  cases hok : w.written d.out.length with
  | true =>
    exact .of_saved (standing_saveWorkerState d w) (hok ▸ hout) hmirrors
  | false =>
    rw [hok, hnone hok] at hout
    exact .of_failed hout

theorem offBooks_of_plain {e : Effect} (h : e.plain = true) : e.offBooks = true := by
  cases e with
  | txn | workersFile | batchesFile => cases h
  | _ => rfl

theorem offBooks_of_isCard {e : Effect} {batch : ℕ} {parent : SessionId}
    (h : e.isCard batch parent = true) : e.offBooks = true := by
  cases e with
  | event => rfl
  | _ => cases h

theorem Trail.offBooks (h : Trail id wk wk' effs) : ∀ e ∈ effs, e.offBooks = true := by
  intro e he
  rcases h.kinds e he with he | he | he | he
  · exact offBooks_of_plain he
  · exact offBooks_of_isCard he
  · cases e with
    | evidence => rfl
    | _ => cases he
  · cases e with
    | episodeEnd => rfl
    | _ => cases he

theorem Aside.writes (h : Aside d d') : Writes d d' := by
  obtain ⟨effs, hout, hplain⟩ := h.out
  exact .off hout fun e he => offBooks_of_plain (hplain e he)

theorem Move.writes (h : Move cfg w c d d') : Writes d d' := by
  cases h with
  | aside h => exact h.writes
  | admission hc hcap hnext hget =>
    obtain ⟨-, effs, hout, hplain⟩ := admitOne_spec d cfg w _ _
    refine .off hout fun e he => ?_
    rcases List.mem_append.mp he with he | he
    · exact offBooks_of_plain (hplain e he)
    · rcases List.mem_pair.mp he with rfl | rfl <;> rfl
  | life hget hlife hcore hout htrail => exact .off hout htrail.offBooks
  | card hget => exact .off rfl (by simp [Effect.offBooks])
  | remoteCard hget => exact .off rfl (by simp [Effect.offBooks])
  | remote hc hget hsame hcore hout heffs =>
    exact .off hout fun e he => (heffs e he).elim offBooks_of_plain offBooks_of_isCard
  | fan hc hfan hok =>
    rename_i d₁ b locals rows
    obtain ⟨effs, hout, hmirrors, -⟩ := out_saveWorkerState d₁ w
    rw [hok, hfan.out] at hout
    exact .saved (standing_saveWorkerState d₁ w) hout hmirrors
  | lost hn hm hcore hout => exact .failed hout
  | save => exact writes_saveWorkerState d w
  | saveRemotes => exact .off rfl (by simp [Effect.offBooks])
  | report hc hget hdue =>
    obtain ⟨-, tail, hout, htail⟩ := @reportBatch_spec cfg d _ _ hget
    refine .off hout fun e he => ?_
    rcases List.mem_cons.mp he with rfl | he
    · rfl
    · rcases htail e he with he | ⟨session, call, d₁, rfl⟩
      · exact offBooks_of_plain he
      · rfl
  | fanned hlocal hremote => exact .off rfl (by simp [Effect.offBooks])
  | accepted hlocal => exact .off rfl (by simp [Effect.offBooks])

/-! ### Handlers save last what they have come to -/

/-- An input that may end workers other than by a review. -/
def Input.ends : Input → Bool
  | .turnComplete _ | .mesh (.cancel ..) | .goalEnded .. => true
  | .request _ _ tool _ => tool = "worker_cancel"
  | _ => false

theorem Life.lasting (h : Life cfg w id (.handling i) wk wk') (hi : i.ends = false) :
    endState wk'.state = endState wk.state := by
  cases h with
  | turned => cases hi
  | cancelled hlive hcancels =>
    cases i with
    | request session call tool args => simp [Input.ends, hcancels.1] at hi
    | mesh req =>
      cases req with
      | cancel => cases hi
      | _ => cases hcancels
    | goalEnded => cases hi
    | _ => cases hcancels
  | woken hwakes =>
    have hlive : terminal wk.state = false := by
      cases hs : wk.state <;> simp_all [wakes, terminal]
    change none = endState wk.state
    simp [endState, hlive]
  | suspended hstate => simp [hstate, endState, terminal]
  | resumed hstate => simp [hstate, endState, terminal]
  | _ => rfl

/-- Under such an input the standing stays. -/
theorem Move.standing (h : Move cfg w (.handling i) d d') (hi : i.ends = false) (hd : d.Fresh) :
    d'.core.standing = d.core.standing := by
  cases h.coreMove with
  | same seq h => exact standing_of_books (congrArg Core.workers h) (congrArg Core.batches h)
  | life hget hlife h => rw [h, standing_worker hget (hlife.lasting hi)]
  | admission hget hqueued hcap h horder =>
    rw [h, standing_worker hget]
    simp_all [Worker.admissible, endState, terminal, admitted]
  | row hget hsame h => exact standing_of_books (congrArg Core.workers h) (congrArg Core.batches h)
  | report hc hget hdue h => cases hc
  | fan hc hfan h =>
    exact (standing_of_books (congrArg Core.workers h) (congrArg Core.batches h)).trans
      (hfan.standing hd)
  | lost hn hm h => exact standing_of_books (congrArg Core.workers h) (congrArg Core.batches h)

theorem Moves.recorded (h : Moves cfg w (.handling i) d d') (hi : i.ends = false) (hd : d.Fresh)
    (hr : Recorded S k d) : Recorded S k d' := by
  induction h with
  | refl => exact hr
  | tail hmoves hmove ih =>
    exact hmove.writes.recorded (hmove.standing hi (Moves.fresh hmoves hd)) ih

theorem Aside.recorded (h : Aside d d') (hr : Recorded S k d) : Recorded S k d' :=
  h.writes.recorded (congrArg Core.standing h.core) hr

theorem Recorded.saveRemotes (hr : Recorded S k d) : Recorded S k (d.saveRemotes w) :=
  Writes.recorded (.off rfl (by simp [Effect.offBooks])) rfl hr

/-- Batches that report are saved. -/
theorem Recorded.checkBatches (hr : Recorded S k d) : Recorded S k (d.checkBatches cfg w) := by
  unfold Driver.checkBatches
  extract_lets dueNow homes d₁ d₂
  have h₂ : Recorded S k d₂ := by
    unfold d₂
    split
    · rename_i hnone
      have hd₁ : d₁ = d := by
        unfold d₁
        rw [List.isEmpty_iff.mp hnone]
        rfl
      rwa [hd₁]
    · exact recorded_saveWorkerState d₁ w
  exact (aside_homes w homes d₂).recorded h₂

theorem Recorded.remotesMoved (hi : i.ends = false) (hd : d.Fresh) (hr : Recorded S k d) :
    Recorded S k (d.remotesMoved cfg w) := by
  have hsync := aside_syncRemoteCells w d
  have hopen : Moves cfg w (.handling i) (d.syncRemoteCells w) _ :=
    moves_barriersThen i (fun d => (d.admitQueued cfg w).saveWorkerState w)
      (fun d => (moves_admitQueued ne_closing d).tail .save) (d.syncRemoteCells w)
  exact ((hopen.recorded hi ((Moves.of_aside hsync : Moves cfg w (.handling i) d _).fresh hd)
    (hsync.recorded hr)).checkBatches).saveRemotes

theorem recorded_cascade (session : SessionId) (hr : Recorded S k d) :
    Recorded S k (d.cascade cfg w session) := by
  unfold cascade
  extract_lets ids remoteIds d₁ d₂
  split
  · exact hr
  · exact (recorded_saveWorkerState _ w).saveRemotes

theorem recorded_workerCancel (session : SessionId) (call : ActionId) (args : Json)
    (hr : Recorded S k d) : Recorded S k (d.workerCancel cfg w session call args) := by
  unfold workerCancel
  split
  · exact (Aside.emit rfl).recorded hr
  · split
    · exact (Aside.emit rfl).recorded hr
    · exact (recorded_saveWorkerState _ w).saveRemotes

/-- A peer's request that changed nothing. -/
theorem recorded_handleMeshReq (hd : d.Fresh) (req : MeshReq) (hr : Recorded S k d)
    (hnot : (d.handleMeshReq cfg w req).2 = false) :
    Recorded S k (d.handleMeshReq cfg w req).1 := by
  have hmoves : Moves cfg w (.handling (.mesh req)) d (d.handleMeshReq cfg w req).1 :=
    moves_handleMeshReq hd req
  cases req with
  | cancel sender batch workers =>
    cases batch with
    | none => exact (Aside.emit rfl).recorded hr
    | some batch =>
      unfold handleMeshReq at hnot ⊢
      cases horigin : d.hostedFor sender batch with
      | none =>
        simp only [horigin]
        exact (Aside.emit rfl).recorded hr
      | some originBatch =>
        simp only [horigin, Bool.not_eq_false'] at hnot ⊢
        rw [if_pos hnot]
        exact (Aside.emit rfl).recorded hr
  | _ => exact hmoves.recorded rfl hd hr

theorem recorded_meshRequest (hd : d.Fresh) (req : MeshReq) (hr : Recorded S k d) :
    Recorded S k (d.meshRequest cfg w req) := by
  cases hsaved : (d.handleMeshReq cfg w req).2 with
  | false =>
    rw [meshRequest_of_not hsaved]
    exact recorded_handleMeshReq hd req hr hsaved
  | true =>
    unfold meshRequest
    split
    rename_i d₁ saved heq
    obtain rfl : saved = true := by rw [← hsaved, heq]
    exact ((recorded_saveWorkerState _ w).saveRemotes).checkBatches

/-- A review that ends nobody leaves nothing to save. -/
theorem recorded_reviewOne {s : Sweep} (h : Reviewable w s.driver id)
    (hr : s.failed = false → Recorded S k s.driver)
    (hfailed : (reviewOne cfg w s id).failed = false) :
    Recorded S k (reviewOne cfg w s id).driver := by
  obtain ⟨wk, hget, hdue⟩ := h
  obtain ⟨wk', effs, hlife, hcore, hout, htrail, hflag⟩ := @reviewOne_spec cfg w _ _ _ hget hdue
  rw [hflag, Bool.or_eq_false_iff] at hfailed
  obtain ⟨hbefore, hnot⟩ := hfailed
  refine Writes.recorded (.off hout htrail.offBooks) ?_ (hr hbefore)
  rw [hcore]
  refine standing_worker hget ?_
  cases hwk : wk.isTerminal with
  | true => rw [hlife.ended hwk]
  | false =>
    have hwk' : wk'.isTerminal = false := by simpa [hwk] using hnot
    simp [endState, show terminal wk.state = false from hwk,
      show terminal wk'.state = false from hwk']

theorem recorded_swept (hr : Recorded S k d) (hfailed : (d.swept cfg w).failed = false) :
    Recorded S k (d.swept cfg w).driver := by
  suffices h : ∀ (l : List ℕ) (s : Sweep), l.Nodup → (∀ id ∈ l, Reviewable w s.driver id) →
      (s.failed = false → Recorded S k s.driver) →
      (l.foldl (reviewOne cfg w) s).failed = false →
        Recorded S k (l.foldl (reviewOne cfg w) s).driver from
    h _ _ (Table.nodup_keysWhere ..) (fun _ hid => Table.mem_keysWhere.mp hid) (fun _ => hr) hfailed
  intro l
  induction l with
  | nil => exact fun s _ _ hr hfailed => hr hfailed
  | cons id l ih =>
    intro s hl hall hr
    obtain ⟨hid, hl⟩ := List.nodup_cons.mp hl
    have hself := hall id (by simp)
    refine ih _ hl (fun id' hid' => ?_) fun hfailed => recorded_reviewOne hself hr hfailed
    exact hself.of_reviewOne (hall id' (by simp [hid'])) fun h => hid (h ▸ hid')

theorem recorded_tick (hd : d.Fresh) (hr : Recorded S k d) : Recorded S k (d.tick cfg w) := by
  have hswept : Moves cfg w .review d (d.swept cfg w).driver := moves_swept d
  unfold tick Sweep.follow
  generalize hs : d.swept cfg w = s at hswept
  extract_lets d₀ d₁ d₂ d₃ d₄ d₅
  have h₅ : Recorded S k d₅ := by
    unfold d₅
    split
    · exact recorded_saveWorkerState d₄ w
    · rename_i hquiet
      obtain ⟨hfailed, -⟩ : s.failed = false ∧ _ := by simpa using hquiet
      have h₀ : Recorded S k s.driver := by
        rw [← hs] at hfailed ⊢
        exact recorded_swept hr hfailed
      have h₁ : Moves cfg w (.handling .tick) d₀ d₁ := by
        unfold d₁
        split
        · exact moves_barriersThen .tick (fun d => d.admitQueued cfg w)
            (fun d => moves_admitQueued ne_closing d) d₀
        · exact .refl
      have h₂ : Recorded S k d₂ := by
        unfold d₂
        rw [if_neg (by simp [hfailed])]
        exact h₁.recorded rfl (hswept.fresh hd) h₀
      have h₃ : Recorded S k d₃ := h₂.checkBatches
      unfold d₄
      split
      · exact (aside_syncCells cfg w d₃).recorded h₃
      · exact h₃
  exact aside_runDuePolls.recorded h₅

theorem recorded_request (hd : d.Fresh) (session : SessionId) (call : ActionId) (tool : String)
    (args : Json) (hr : Recorded S k d) :
    Recorded S k (d.handle cfg w (.request session call tool args)) := by
  unfold handle
  dsimp only
  split
  · have hmoves : Moves cfg w (.handling .tick) d (d.taskFanout cfg w session call args) :=
      moves_taskFanout ne_closing hd session call args
    exact hmoves.recorded rfl hd hr
  · split
    · exact (aside_mandalaClose session call args).recorded hr
    · split
      · exact (aside_mandalaCreate session call args).recorded hr
      · split
        · have hmoves : Moves cfg w (.handling .tick) d (d.recordReport cfg session call args) :=
            moves_recordReport session call args
          exact hmoves.recorded rfl hd hr
        · split
          · exact recorded_workerCancel session call args hr
          · exact hr

theorem recorded_handle (hd : d.Fresh) (i : Input) (hr : Recorded S k d) :
    Recorded S k (d.handle cfg w i) := by
  cases i with
  | tick => exact recorded_tick hd hr
  | request session call tool args => exact recorded_request hd session call tool args hr
  | mesh req => exact recorded_meshRequest hd req hr
  | assigned batch node wids result =>
    have hmoves :
        Moves cfg w (.handling .tick) d (d.handleAssignOutcome cfg w batch node wids result) :=
      moves_handleAssignOutcome ne_closing batch node wids result
    exact Recorded.remotesMoved (i := .tick) rfl (hmoves.fresh hd) (hmoves.recorded rfl hd hr)
  | polled batch node result =>
    have hmoves : Moves cfg w (.handling .tick) d (d.handlePollOutcome cfg w batch node result).1 :=
      moves_handlePollOutcome ne_closing batch node result
    have hpolled := hmoves.recorded rfl hd hr
    unfold handle
    dsimp only
    split
    · exact Recorded.remotesMoved (i := .tick) rfl (hmoves.fresh hd) hpolled
    · exact hpolled
  | turnComplete session =>
    unfold handle turnComplete
    dsimp only
    split
    · split
      · exact hr
      · exact recorded_saveWorkerState _ w
    · exact hr
  | approvalPending session tool =>
    unfold handle
    dsimp only
    split
    · cases d.blockOnApproval session tool with
      | none => exact hr
      | some d₁ => exact recorded_saveWorkerState d₁ w
    · exact hr
  | userApproval session =>
    unfold handle
    dsimp only
    split
    · cases d.resumeFromApproval w session with
      | none => exact hr
      | some d₁ => exact recorded_saveWorkerState d₁ w
    · exact hr
  | userPrompt session =>
    unfold handle userPrompt
    dsimp only
    split
    · split
      · exact hr
      · exact recorded_saveWorkerState _ w
    · exact hr
  | turnError session =>
    unfold handle
    dsimp only
    split
    · have hmoves : Moves cfg w (.handling (.turnError session)) d (d.turnErrored session) :=
        moves_turnErrored session
      exact hmoves.recorded rfl hd hr
    · exact hr
  | goalEnded state session =>
    unfold handle goalEnded
    dsimp only
    split
    · refine (aside_tryCloseForConductor session).recorded ?_
      split
      · exact recorded_cascade session hr
      · exact hr
    · exact hr
  | goalArmed session =>
    have haside : Aside d { d with yolo := insert session d.yolo } := .of_eq rfl rfl
    exact haside.recorded hr
  | goalDisarmed session =>
    have haside : Aside d { d with yolo := d.yolo.erase session } := .of_eq rfl rfl
    exact haside.recorded hr

/-- **A handler saves last what it has come to.** -/
theorem recorded_react (hd : d.Fresh) (i : Input) :
    Recorded d.core.standing k (d.react cfg w i) := by
  have hd₀ : Fresh { d with out := [] } := ⟨hd.worker, hd.remote, hd.batch⟩
  exact recorded_handle hd₀ i ⟨fun _ => ⟨rfl, rfl⟩, fun h => nomatch h⟩

/-! ### Reports -/

/-- What the reports of a handler say of the books as they are: the rows of the batch, which was due
and has now reported. -/
def Said (cfg : Config) (w : World) (d : Driver) : Prop :=
  ∀ batch parent rows, .event (.taskBatchDone batch parent rows) ∈ d.out →
    rows = batchRows d.workers d.remotes batch cfg.agentsDir ∧
    ∃ b, d.batches.get? batch = some b ∧ b.parent = parent ∧ b.reported = true ∧
      (allTerminal d.workers d.remotes batch = true ∨ b.expired w.epoch = true)

/-- What the closing of a handler is made of: batches report, and nothing else touches the books. -/
theorem Move.closing (h : Move cfg w .closing d d') :
    (d'.workers = d.workers ∧ d'.remotes = d.remotes ∧ d'.batches = d.batches ∧
      ∃ effs, d'.out = d.out ++ effs ∧ ∀ e ∈ effs, e.traceless = true) ∨
    ∃ batch b, d.batches.get? batch = some b ∧ due d.workers d.remotes w.epoch batch b = true ∧
      d' = reportBatch cfg d batch := by
  have of_core {seq n m : ℕ} {sid : SessionId} (hcore : d'.core = { d.core with
        nextWorkerId := n, nextBatchId := m, nextWorkerSid := sid, txnSeq := seq })
      {effs : List Effect} (hout : d'.out = d.out ++ effs)
      (htraceless : ∀ e ∈ effs, e.traceless = true) :
      d'.workers = d.workers ∧ d'.remotes = d.remotes ∧ d'.batches = d.batches ∧
        ∃ effs, d'.out = d.out ++ effs ∧ ∀ e ∈ effs, e.traceless = true :=
    ⟨congrArg Core.workers hcore, congrArg Core.remotes hcore,
      congrArg Core.batches hcore, effs, hout,
      htraceless⟩
  cases h with
  | aside h =>
    obtain ⟨effs, hout, hplain⟩ := h.out
    exact Or.inl (of_core h.core hout fun e he => traceless_of_plain (hplain e he))
  | admission hc _ _ _ => exact absurd rfl hc
  | life hget hlife _ _ _ => cases hlife
  | card hget => exact Or.inl (of_core rfl rfl (by simp [Effect.traceless]))
  | remoteCard hget => exact Or.inl (of_core rfl rfl (by simp [Effect.traceless]))
  | remote hc _ _ _ _ _ => exact absurd rfl hc
  | fan hc _ _ => exact absurd rfl hc
  | lost hn hm hcore hout => exact Or.inl (of_core hcore hout (by simp [Effect.traceless]))
  | save =>
    obtain ⟨effs, hout, hmirrors, -⟩ := out_saveWorkerState d w
    refine Or.inl (of_core (core_saveWorkerState d w) hout fun e he => ?_)
    rcases List.mem_cons.mp he with rfl | he
    · rfl
    · exact traceless_of_isMirror (hmirrors e he)
  | saveRemotes => exact Or.inl (of_core rfl rfl (by simp [Effect.traceless]))
  | report hc hget hdue => exact Or.inr ⟨_, _, hget, hdue, rfl⟩
  | fanned hlocal hremote => exact Or.inl (of_core rfl rfl (by simp [Effect.traceless]))
  | accepted hlocal => exact Or.inl (of_core rfl rfl (by simp [Effect.traceless]))

theorem Move.said (h : Move cfg w .closing d d') (hs : Said cfg w d) : Said cfg w d' := by
  rcases h.closing with ⟨hworkers, hremotes, hbatches, effs, hout, htraceless⟩ |
    ⟨batch, b, hget, hdue, rfl⟩
  · intro batch parent rows hmem
    rw [hworkers, hremotes, hbatches]
    rw [hout] at hmem
    rcases List.mem_append.mp hmem with hold | hnew
    · exact hs batch parent rows hold
    · cases htraceless _ hnew
  · obtain ⟨hcore, tail, hout, htail⟩ := @reportBatch_spec cfg d _ _ hget
    have hworkers : (reportBatch cfg d batch).workers = d.workers := congrArg Core.workers hcore
    have hremotes : (reportBatch cfg d batch).remotes = d.remotes := congrArg Core.remotes hcore
    have hbatches : (reportBatch cfg d batch).batches = _ := congrArg Core.batches hcore
    have hunreported : b.reported = false ∧
        (allTerminal d.workers d.remotes batch = true ∨ b.expired w.epoch = true) := by
      simpa [due] using hdue
    intro batch' parent rows hmem
    rw [hworkers, hremotes, hbatches]
    rw [hout] at hmem
    rcases List.mem_append.mp hmem with hold | hnew
    · obtain ⟨hrows, b', hget', hparent, hreported, hwhen⟩ := hs batch' parent rows hold
      have hne : batch' ≠ batch := by
        rintro rfl
        obtain rfl : b' = b := Option.some.inj (hget'.symm.trans hget)
        simp [hunreported.1] at hreported
      exact ⟨hrows, b', by rwa [Table.get?_modify_of_ne hne], hparent, hreported, hwhen⟩
    · rcases List.mem_cons.mp hnew with heq | htl
      · obtain ⟨rfl, rfl, rfl⟩ : batch' = batch ∧ parent = b.parent ∧ rows = _ := by simpa using heq
        refine ⟨rfl, { b with reported := true, inlineAck := none }, ?_, rfl, rfl, hunreported.2⟩
        rw [Table.get?_modify_self, hget]
        rfl
      · cases traceless_of_follows (htail _ htl)

theorem Moves.said (h : Moves cfg w .closing d d') (hs : Said cfg w d) : Said cfg w d' := by
  induction h with
  | refl => exact hs
  | tail _ hmove ih => exact hmove.said ih

/-- Nothing is reported before the closing. -/
theorem Move.unsaid (h : Move cfg w c d d') (hd : d.Fresh) (hc : c ≠ .closing)
    (hs : ∀ batch, d.out.countP (Effect.isReport batch) = 0) (batch : ℕ) :
    d'.out.countP (Effect.isReport batch) = 0 := by
  obtain ⟨effs, hout, hadvance⟩ := h.advance hd
  have hsame : d'.core.standing.reported batch = d.core.standing.reported batch := by
    change (d'.batches.get? batch).any _ = (d.batches.get? batch).any _
    cases h.batches with
    | same h => rw [h]
    | report hclosing _ _ _ => exact absurd hclosing hc
    | fan hb h _ =>
      rw [h, Table.get?_insert]
      split
      · rename_i hbatch
        have hnone : d.batches.get? d.nextBatchId = none :=
          Table.get?_eq_none_of_forall fun x hx => Nat.ne_of_lt (hd.batch x hx)
        rw [hbatch, hnone]
        simp [hb]
      · rfl
  have hcount := hadvance.report batch
  rw [hsame] at hcount
  rw [hout, List.countP_append, hs batch]
  omega

theorem Moves.unsaid (h : Moves cfg w c d d') (hd : d.Fresh) (hc : c ≠ .closing)
    (hs : ∀ batch, d.out.countP (Effect.isReport batch) = 0) (batch : ℕ) :
    d'.out.countP (Effect.isReport batch) = 0 := by
  induction h generalizing batch with
  | refl => exact hs batch
  | tail hmoves hmove ih =>
      exact hmove.unsaid (Moves.fresh hmoves hd) hc (fun batch => ih batch) batch

theorem said_react (hd : d.Fresh) (i : Input) : Said cfg w (d.react cfg w i) := by
  obtain ⟨d₁, hreview, -, d₂, hwork, hclose⟩ := reacted cfg w hd i
  have hd₀ : Fresh { d with out := [] } := ⟨hd.worker, hd.remote, hd.batch⟩
  have h₁ := hreview.unsaid hd₀ (by simp) (by simp)
  have h₂ := hwork.unsaid (hreview.fresh hd₀) (by simp) h₁
  refine hclose.said fun batch parent rows hmem => ?_
  have hnot := List.countP_eq_zero.mp (h₂ batch) _ hmem
  simp [Effect.isReport] at hnot

theorem nodup_batchRows {workers : Workers} {remotes : Remotes} {batch : ℕ} {dir : String}
    (h : ∀ id, workers.contains id = true → remotes.contains id = false) :
    ((batchRows workers remotes batch dir).map Row.worker).Nodup := by
  have hperm := (List.perm_insertionSort (fun a b : Row => a.worker ≤ b.worker)
    (((workers.entries.filter fun x => x.2.batch = batch).map fun x => x.2.row dir x.1) ++
      (remotes.entries.filter fun x => x.2.batch = batch).map fun x => x.2.row x.1)).map Row.worker
  refine hperm.nodup_iff.mpr ?_
  rw [List.map_append, List.map_map, List.map_map]
  have hlocal : (List.map (Row.worker ∘ fun x : ℕ × Worker => x.2.row dir x.1)
      (workers.entries.filter fun x => x.2.batch = batch)).Nodup :=
    workers.nodup.sublist (List.filter_sublist.map Prod.fst)
  have hremote : (List.map (Row.worker ∘ fun x : ℕ × RemoteWorker => x.2.row x.1)
      (remotes.entries.filter fun x => x.2.batch = batch)).Nodup :=
    remotes.nodup.sublist (List.filter_sublist.map Prod.fst)
  refine List.nodup_append.mpr ⟨hlocal, hremote, ?_⟩
  intro a ha b hb
  obtain ⟨x, hx, rfl⟩ := List.mem_map.mp ha
  obtain ⟨y, hy, rfl⟩ := List.mem_map.mp hb
  intro heq
  have hxy : x.1 = y.1 := heq
  have hworker := Table.contains_iff.mpr ⟨x.2, Table.mem_iff_get?.mp (List.mem_filter.mp hx).1⟩
  have hrow := Table.contains_iff.mpr ⟨y.2, Table.mem_iff_get?.mp (List.mem_filter.mp hy).1⟩
  rw [← hxy, h x.1 hworker] at hrow
  cases hrow

theorem isTerminal_of_allTerminal {batch : ℕ} (h : allTerminal d.workers d.remotes batch = true) :
    (∀ id wk, d.workers.get? id = some wk → wk.batch = batch → wk.isTerminal = true) ∧
    ∀ id r, d.remotes.get? id = some r → r.batch = batch → r.isTerminal = true := by
  simp only [allTerminal, Bool.and_eq_true, List.all_eq_true, List.mem_filter, decide_eq_true_eq,
    and_imp] at h
  obtain ⟨⟨-, hworkers⟩, hremotes⟩ := h
  refine ⟨fun id wk hget hbatch => hworkers wk ?_ hbatch,
    fun id r hget hbatch => hremotes r ?_ hbatch⟩
  · exact List.mem_map_of_mem (Table.mem_of_get? hget)
  · exact List.mem_map_of_mem (Table.mem_of_get? hget)

/-- What was said is a report. -/
theorem Said.reports (h : Said cfg w d)
    (hapart : ∀ id, d.workers.contains id = true → d.remotes.contains id = false) {batch : ℕ}
    {parent : SessionId} {rows : List Row}
    (hmem : .event (.taskBatchDone batch parent rows) ∈ d.out) : d.Reports w batch parent rows := by
  obtain ⟨rfl, b, hget, hparent, -, hwhen⟩ := h batch parent rows hmem
  refine ⟨?_, ?_, ?_, nodup_batchRows hapart, b, hget, hparent, ?_⟩
  · intro id wk hget hbatch
    exact ⟨_, mem_batchRows.mpr (Or.inl ⟨id, wk, hget, hbatch, rfl⟩), rfl, rfl, rfl, rfl⟩
  · intro id r hget hbatch
    exact ⟨_, mem_batchRows.mpr (Or.inr ⟨id, r, hget, hbatch, rfl⟩), rfl, rfl, rfl⟩
  · intro row hrow
    rcases mem_batchRows.mp hrow with ⟨id, wk, hget, hbatch, rfl⟩ | ⟨id, r, hget, hbatch, rfl⟩
    · exact Or.inl ⟨wk, hget, hbatch⟩
    · exact Or.inr ⟨r, hget, hbatch⟩
  · refine hwhen.imp_left fun hall row hrow => ?_
    obtain ⟨hworkers, hremotes⟩ := isTerminal_of_allTerminal hall
    rcases mem_batchRows.mp hrow with ⟨id, wk, hget, hbatch, rfl⟩ | ⟨id, r, hget, hbatch, rfl⟩
    · simp [Worker.row, hworkers id wk hget hbatch]
    · simp [RemoteWorker.row, hremotes id r hget hbatch]

/-! ### A tick leaves no batch due -/

/-- Reports over a list of batches: these have reported, the rest is as it was. -/
theorem foldl_reportBatch (l : List ℕ) (d : Driver) :
    (l.foldl (reportBatch cfg) d).workers = d.workers ∧
    (l.foldl (reportBatch cfg) d).remotes = d.remotes ∧
    ∀ batch b, (l.foldl (reportBatch cfg) d).batches.get? batch = some b →
      b.reported = true ∨ batch ∉ l ∧ d.batches.get? batch = some b := by
  induction l generalizing d with
  | nil => exact ⟨rfl, rfl, fun batch b hget => Or.inr ⟨by simp, hget⟩⟩
  | cons a l ih =>
    obtain ⟨hworkers, hremotes, hbatches⟩ := ih (reportBatch cfg d a)
    cases ha : d.batches.get? a with
    | none =>
      rw [reportBatch_of_none ha] at hworkers hremotes hbatches
      refine ⟨?_, ?_, fun batch b hget => ?_⟩
      · rw [List.foldl_cons, reportBatch_of_none ha, hworkers]
      · rw [List.foldl_cons, reportBatch_of_none ha, hremotes]
      · rw [List.foldl_cons, reportBatch_of_none ha] at hget
        refine (hbatches batch b hget).imp_right fun ⟨hnot, hget⟩ => ⟨?_, hget⟩
        have hne : batch ≠ a := by
          rintro rfl
          rw [ha] at hget
          cases hget
        simp [hne, hnot]
    | some m =>
      have hcore := (@reportBatch_spec cfg d _ _ ha).1
      refine ⟨hworkers.trans (congrArg Core.workers hcore),
        hremotes.trans (congrArg Core.remotes hcore), fun batch b hget => ?_⟩
      rcases hbatches batch b hget with hreported | ⟨hnot, hget⟩
      · exact Or.inl hreported
      · rw [show (reportBatch cfg d a).batches = _ from congrArg Core.batches hcore] at hget
        by_cases hne : batch = a
        · rw [hne, Table.get?_modify_self, ha] at hget
          exact Or.inl (Option.some.inj hget ▸ rfl)
        · rw [Table.get?_modify_of_ne hne] at hget
          exact Or.inr ⟨by simp [hne, hnot], hget⟩

/-- No batch is due. -/
def NoneDue (w : World) (d : Driver) : Prop :=
  ∀ batch b, d.batches.get? batch = some b → due d.workers d.remotes w.epoch batch b = false

theorem NoneDue.congr (h : NoneDue w d) (hcore : d'.core.workers = d.workers ∧
    d'.core.remotes = d.remotes ∧ d'.core.batches = d.batches) : NoneDue w d' := by
  obtain ⟨hworkers, hremotes, hbatches⟩ := hcore
  unfold NoneDue
  rw [show d'.workers = d.workers from hworkers, show d'.remotes = d.remotes from hremotes,
    show d'.batches = d.batches from hbatches]
  exact h

theorem NoneDue.aside (h : NoneDue w d) (haside : Aside d d') : NoneDue w d' :=
  h.congr (by rw [haside.core]; exact ⟨rfl, rfl, rfl⟩)

theorem NoneDue.save (h : NoneDue w d) : NoneDue w (d.saveWorkerState w) :=
  h.congr (by rw [core_saveWorkerState]; exact ⟨rfl, rfl, rfl⟩)

theorem noneDue_checkBatches (cfg : Config) (w : World) (d : Driver) :
    NoneDue w (d.checkBatches cfg w) := by
  unfold checkBatches
  extract_lets dueNow homes d₁ d₂
  have h₁ : NoneDue w d₁ := by
    obtain ⟨hworkers, hremotes, hbatches⟩ := @foldl_reportBatch cfg dueNow d
    intro batch b hget
    rcases hbatches batch b hget with hreported | ⟨hnot, hget⟩
    · simp [due, hreported]
    · rw [show d₁.workers = d.workers from hworkers, show d₁.remotes = d.remotes from hremotes]
      by_contra hdue
      exact hnot (Table.mem_keysWhere.mpr ⟨b, hget, by simpa using hdue⟩)
  have h₂ : NoneDue w d₂ := by
    unfold d₂
    split
    · exact h₁
    · exact h₁.save
  exact h₂.aside (aside_homes w homes d₂)

theorem noneDue_tick (cfg : Config) (w : World) (d : Driver) : NoneDue w (d.tick cfg w) := by
  unfold tick Sweep.follow
  extract_lets d₀ d₁ d₂ d₃ d₄ d₅
  have h₃ : NoneDue w d₃ := noneDue_checkBatches cfg w d₂
  have h₄ : NoneDue w d₄ := by
    unfold d₄
    split
    · exact h₃.aside (aside_syncCells cfg w d₃)
    · exact h₃
  have h₅ : NoneDue w d₅ := by
    unfold d₅
    split
    · exact h₄.save
    · exact h₄
  exact h₅.aside aside_runDuePolls

/-! ### Boots -/

theorem endState_parkedForm (s : WorkerState) : endState (parkedForm s) = endState s := by
  cases s <;> rfl

/-- A boot has the standing of the disk. -/
theorem standing_boot (cfg : Config) (w : World)
    (hk : ∀ id x, k.register.workers id = some x →
      k.register.batches x.batch = some x.parent) :
    (boot cfg w k).core.standing = k.standing := by
  refine Standing.ext (funext fun id => ?_) (funext fun batch => ?_)
  · change ((boot cfg w k).workers.get? id).bind _ = _
    rw [(booted cfg w k).workers, Table.get?_insertAll_map k.workerRows PersistedWorker.id
      (fun pw => pw) (fun pw => pw.hydrate w.now) id, Option.bind_map]
    simp only [Disk.standing]
    rw [Table.get?_insertAll_map k.workerRows PersistedWorker.id
      (fun pw => pw) PersistedWorker.state id,
      Option.bind_map]
    exact congrArg _ (funext fun pw => endState_parkedForm pw.state)
  · change ((boot cfg w k).batches.get? batch).any _ = _
    rw [batches_boot cfg w hk, Table.get?_insertAll_map k.batchRows PersistedBatch.batch
      (fun pb => pb) PersistedBatch.hydrate batch]
    simp only [Disk.standing]
    rw [Table.get?_insertAll_map k.batchRows PersistedBatch.batch (fun pb => pb)
      PersistedBatch.reported batch]
    cases (Table.empty.insertAll (k.batchRows.map fun pb => (pb.batch, pb))).get? batch <;> rfl

theorem Restated.traceless {e : Effect} (h : Restated d e) :
    e.traceless = true ∧ e.offBooks = true := by
  rcases h with hplain | ⟨_, _, _, hcard⟩ | ⟨_, _, _, hcard⟩
  · exact ⟨traceless_of_plain hplain, offBooks_of_plain hplain⟩
  · exact ⟨traceless_of_isCard hcard, offBooks_of_isCard hcard⟩
  · exact ⟨traceless_of_isCard hcard, offBooks_of_isCard hcard⟩

theorem offBooks_or_failed_of_inert {e : Effect} (h : e.inert = true) :
    e.offBooks = true ∨ ∃ txn, e = .txn txn false := by
  cases e with
  | txn txn ok =>
    cases ok with
    | true => cases h
    | false => exact Or.inr ⟨txn, rfl⟩
  | workersFile | batchesFile => cases h
  | _ => exact Or.inl rfl

/-- A fan-out that was withheld leaves the standing and the files. -/
theorem Withheld.standing (h : Withheld d d') (hd : d.out = []) :
    d'.core.standing = d.core.standing ∧ (d'.out.foldl Disk.apply k).standing = k.standing := by
  refine ⟨standing_of_books h.workers h.batches, ?_⟩
  obtain ⟨effs, hout, hinert⟩ := h.out
  rw [hout, hd, List.nil_append]
  clear hout
  induction effs generalizing k with
  | nil => rfl
  | cons e effs ih =>
    refine (ih fun e' he' => hinert e' (by simp [he'])).trans ?_
    rcases offBooks_or_failed_of_inert (hinert e (by simp)) with he | ⟨txn, rfl⟩
    · exact standing_apply_of_offBooks he
    · rfl

end Driver

/-! ### Runs -/

namespace Node

variable {cfg : Config} {past : List (Happening × List Effect)} {n : Node} {e : Happening}

/-- What holds between two happenings: everything done so far is the trail of the standing the books
have now, and the files have it if the last save was made. -/
structure Upholds (past : List (Happening × List Effect)) (n : Node) : Prop where
  keeps : Keeps [] n
  advance : Advance .none n.driver.core.standing (effects past)
  settled : settled past = true → n.disk.standing = n.driver.core.standing

theorem effects_concat (x : Happening × List Effect) :
    effects (past ++ [x]) = effects past ++ x.2 := by
  simp [effects]

/-- What a happening does is the trail of what it comes to. -/
theorem advance_step (h : Upholds past n) (he : RestartsSaved past e) :
    Advance n.driver.core.standing (step cfg n e).1.driver.core.standing (step cfg n e).2 := by
  cases e with
  | handled w i => exact Driver.advance_react h.keeps.fresh i
  | crashed => cases he
  | restarted w =>
    have hsame : (Driver.boot cfg w n.disk).core.standing = n.driver.core.standing :=
      (Driver.standing_boot cfg w h.keeps.sound.homed_disk).trans (h.settled he)
    change Advance _ (Driver.boot cfg w n.disk).core.standing (Driver.boot cfg w n.disk).out
    rw [hsame]
    exact .of_traceless _ fun e he => ((Driver.booted cfg w n.disk).out e he).traceless.1

theorem settled_concat_of_nil {x : Happening × List Effect} (hx : saves x = []) :
    settled (past ++ [x]) = settled past := by
  simp [settled, hx]

theorem settled_concat {x : Happening × List Effect} {b : Bool} (hx : (saves x).getLast? = some b) :
    settled (past ++ [x]) = b := by
  simp [settled, List.getLast?_append, hx]

theorem upholds_handled (w : World) (i : Driver.Input) (h : Upholds past n)
    (hs : settled (past ++ [(.handled w i, (n.driver.react cfg w i).out)]) = true) :
    ((n.driver.react cfg w i).out.foldl Disk.apply n.disk).standing =
      (n.driver.react cfg w i).core.standing := by
  have hrecorded : Driver.Recorded _ n.disk (n.driver.react cfg w i) :=
    Driver.recorded_react h.keeps.fresh i
  by_cases hrefused :
    (i.fansOut && ((n.driver.react cfg w i).out.filterMap Effect.txnFate = [false] :
      Bool)) = true
  · -- nothing has changed, and nothing counts as a save
    have hsaves : saves (.handled w i, (n.driver.react cfg w i).out) = [] := if_pos hrefused
    rw [settled_concat_of_nil hsaves] at hs
    obtain ⟨hfans, hfates⟩ : i.fansOut = true ∧ _ = [false] := by simpa using hrefused
    have houtcome : Driver.Withheld { n.driver with out := [] } (n.driver.react cfg w i) ∨ _ :=
      Driver.withheld_or_saved h.keeps.fresh hfans
    rcases houtcome with hwithheld | ⟨txn, effs, hout⟩
    · obtain ⟨hstanding, hdisk⟩ := hwithheld.standing (k := n.disk) rfl
      rw [hstanding, hdisk]
      exact h.settled hs
    · rw [hout] at hfates
      cases hfates
  · have hsaves : saves (.handled w i, (n.driver.react cfg w i).out) =
        (n.driver.react cfg w i).out.filterMap Effect.txnFate := if_neg hrefused
    cases hfate : lastFate (n.driver.react cfg w i).out with
    | none =>
      have hnil : saves (.handled w i, (n.driver.react cfg w i).out) = [] :=
        hsaves.trans (List.getLast?_eq_none_iff.mp hfate)
      rw [settled_concat_of_nil hnil] at hs
      obtain ⟨hstanding, hdisk⟩ := hrecorded.unsaved hfate
      rw [hstanding, hdisk]
      exact h.settled hs
    | some ok =>
      obtain rfl : ok = true := by rw [← hs, settled_concat (by rw [hsaves]; exact hfate)]
      exact hrecorded.saved hfate

theorem upholds_step (h : Upholds past n) (he : RestartsSaved past e) :
    Upholds (past ++ [(e, (step cfg n e).2)]) (step cfg n e).1 := by
  refine ⟨keeps_nil_step h.keeps e, ?_, ?_⟩
  · rw [effects_concat]
    exact h.advance.trans (advance_step h he)
  · intro hs
    cases e with
    | handled w i => exact upholds_handled w i h hs
    | crashed => cases he
    | restarted w =>
      change ((Driver.boot cfg w n.disk).out.foldl Disk.apply n.disk).standing =
        (Driver.boot cfg w n.disk).core.standing
      rw [Driver.standing_boot cfg w h.keeps.sound.homed_disk]
      exact standing_foldl_of_offBooks fun e he =>
        ((Driver.booted cfg w n.disk).out e he).traceless.2

theorem ended_eq_some {d : Driver} {id : ℕ} {s : WorkerState}
    (h : d.core.standing.ended id = some s) :
    ∃ wk, d.workers.get? id = some wk ∧ wk.state = s := by
  obtain ⟨wk, hget, hend⟩ := Option.bind_eq_some_iff.mp h
  unfold endState at hend
  split at hend
  · exact ⟨wk, hget, Option.some.inj hend⟩
  · cases hend

theorem ended_isSome (d : Driver) (id : ℕ) :
    (d.core.standing.ended id).isSome = (d.workers.get? id).any Worker.isTerminal := by
  change ((d.workers.get? id).bind _).isSome = _
  cases d.workers.get? id with
  | none => rfl
  | some wk => exact Driver.endState_isSome wk.state

theorem trailKept_of_upholds (h : Upholds past n) (he : RestartsSaved past e) :
    TrailKept cfg past n e := by
  have hafter : Upholds (past ++ [(e, (step cfg n e).2)]) (step cfg n e).1 := upholds_step h he
  have hadvance := hafter.advance
  rw [effects_concat] at hadvance
  have hevidence (id : ℕ) : (effects past ++ (step cfg n e).2).countP (Effect.isEvidence id) =
      if ((step cfg n e).1.driver.workers.get? id).any Worker.isTerminal then 1 else 0 := by
    have hcount := hadvance.evidence id
    rw [ended_isSome] at hcount
    refine (Nat.zero_add _).symm.trans (hcount.trans ?_)
    cases ((step cfg n e).1.driver.workers.get? id).any Worker.isTerminal <;> rfl
  refine ⟨?_, hevidence, ?_, ?_, ?_, ?_⟩
  · intro id wk hget hterm
    refine ended_eq_some ((advance_step h he).ended id wk.state ?_)
    change (n.driver.workers.get? id).bind _ = _
    rw [hget]
    exact if_pos hterm
  · intro id
    refine (hadvance.episodeEnd id).trans ?_
    rw [hevidence]
    split <;> simp
  · intro batch
    have hcount := hadvance.report batch
    refine (Nat.zero_add _).symm.trans (hcount.trans ?_)
    change (((step cfg n e).1.driver.batches.get? batch).any _).toNat = _
    cases ((step cfg n e).1.driver.batches.get? batch).any BatchMeta.reported <;> rfl
  · intro batch parent rows hmem
    cases e with
    | handled w i =>
      have hsaid : Driver.Said cfg w (n.driver.react cfg w i) := Driver.said_react h.keeps.fresh i
      exact ⟨w, i, rfl, hsaid.reports hafter.keeps.honours.apart hmem⟩
    | crashed => cases he
    | restarted w => cases ((Driver.booted cfg w n.disk).out _ hmem).traceless.1
  · rintro w rfl
    exact Driver.noneDue_tick cfg w _

theorem upholds_fresh (cfg : Config) (w : World) : Upholds [] (fresh cfg w) := by
  have hboot : (Driver.boot cfg w .blank).core.standing = .none :=
    Driver.standing_boot cfg w sound_blank.homed_disk
  refine ⟨keeps_fresh cfg w, ?_, fun _ => ?_⟩
  · change Advance .none (Driver.boot cfg w .blank).core.standing []
    rw [hboot]
    exact .of_traceless _ (by simp)
  · change ((Driver.boot cfg w .blank).out.foldl Disk.apply .blank).standing =
      (Driver.boot cfg w .blank).core.standing
    rw [hboot]
    exact standing_foldl_of_offBooks fun e he => ((Driver.booted cfg w .blank).out e he).traceless.2

/-- **The law, over every run** of a new node with restarts where the last save was made: what has
ended stays ended and leaves its trail once, and a batch reports once, when it is due, with its
workers as they are. -/
theorem trailKept_of_restartsSaved (cfg : Config) (w : World) (es : List Happening)
    (h : Run.Always (step cfg) (fresh cfg w) (fun past _ e => RestartsSaved past e) es) :
    Run.Always (step cfg) (fresh cfg w) (fun past n e => n.TrailKept cfg past e) es :=
  Run.Always.of_invariant (I := fun past n => Upholds past n) (upholds_fresh cfg w)
    (fun _ _ _ hn he => upholds_step hn he) (fun _ _ _ hn he => trailKept_of_upholds hn he) h

/-- One task, whose worker says nothing and is done with its turn, and a restart. -/
def oneTask (w : World) : List Happening :=
  [.handled (.calm 0) (.request 7 1 "task_fanout" (taskArgs ["one"])),
    .handled w (.turnComplete workerSessionBase), .restarted (.calm 9)]

theorem trailKept_oneTask :
    Run.Always (step .small) (fresh .small (.calm 0)) (fun past _ e => RestartsSaved past e)
      (oneTask (.calm 5)) ∧
    Run.Always (step .small) (fresh .small (.calm 0)) (fun past n e => n.TrailKept .small past e)
      (oneTask (.calm 5)) := by
  have hsaved : Run.Always (step .small) (fresh .small (.calm 0))
      (fun past _ e => RestartsSaved past e) (oneTask (.calm 5)) := by
    simp only [oneTask, Run.always_cons]
    refine ⟨trivial, trivial, ?_, Run.Always.nil⟩
    change settled _ = true
    decide +kernel
  exact ⟨hsaved, trailKept_of_restartsSaved _ _ _ hsaved⟩

/-- The saves at the end of the turn fail: after the restart the worker, which was done, is
parked. -/
theorem not_trailKept_unsaved :
    ¬ Run.Always (step .small) (fresh .small (.calm 0)) (fun past n e => n.TrailKept .small past e)
      (oneTask { World.calm 5 with written := fun _ => false }) := by
  intro h
  have hlast := h _ _ [] (show oneTask _ = [_, _] ++ _ :: [] from rfl)
  have hdone : ((Run.final (step .small) (fresh .small (.calm 0))
      ((oneTask { World.calm 5 with written := fun _ => false }).take 2)).driver.workers.get?
        1).any (fun wk => wk.state = .done) = true := by
    decide +kernel
  have hparked : ((Run.final (step .small) (fresh .small (.calm 0))
      (oneTask { World.calm 5 with written := fun _ => false })).driver.workers.get? 1).all
        (fun wk => wk.state = .parked) = true := by
    decide +kernel
  obtain ⟨wk, hget, hstate⟩ := (Option.any_eq_true ..).mp hdone
  have hstate : wk.state = .done := by simpa using hstate
  obtain ⟨wk', hget', hkept⟩ :=
    hlast.ended 1 wk hget (by simp [Worker.isTerminal, hstate, terminal])
  have hparked' : wk'.state = .parked := by
    rw [show (Run.final (step .small) (fresh .small (.calm 0)) (oneTask { World.calm 5 with
      written := fun _ => false })).driver.workers.get? 1 = some wk' from hget'] at hparked
    simpa using hparked
  rw [hparked', hstate] at hkept
  cases hkept

end Node

end ApexOS.Fabrica

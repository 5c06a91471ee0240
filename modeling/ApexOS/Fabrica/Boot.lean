import ApexOS.Fabrica.Moves

/-!
# What a boot brings back

The start of the worker driver, read as what it makes of the files: which rows it loads, the books
it has then, and what it says while it starts. A snapshot that was read back is what was written,
with every worker that had not ended parked.

## Main definitions

* `Disk.workerRows`, `Disk.batchRows`: the rows a boot loads
* `Driver.Restated`: an effect of a boot, a card of somebody in the books or a plain one

## Main results

* `Driver.booted`: what a boot makes of the files
* `Driver.of_booted`: a worker that was loaded is parked, or has ended
-/

namespace ApexOS.Fabrica

open ApexOS.Agentd (SessionId)

namespace Disk

/-- The rows of the workers a boot loads: the transaction's, or the legacy file's. -/
def workerRows (k : Disk) : List PersistedWorker :=
  k.loadWorkerTxn.elim k.workersFile WorkerTxn.workers

/-- The rows of the ledger a boot loads. -/
def batchRows (k : Disk) : List PersistedBatch :=
  k.loadWorkerTxn.elim k.batchesFile WorkerTxn.batches

end Disk

/-! ### Snapshots, read back -/

section Snapshots

variable {β : Type*}

theorem get?_snapshotWorkers (t : Workers) (f : PersistedWorker → β) (id : ℕ) :
    (Table.empty.insertAll ((snapshotWorkers t).map fun pw => (pw.id, f pw))).get? id =
      (t.get? id).map fun wk => f (wk.persist id) :=
  Table.get?_insertAll_of_perm (f := fun id (wk : Worker) => wk.persist id)
    (List.perm_insertionSort ..) fun _ _ => rfl

theorem get?_snapshotBatches (t : Batches) (f : PersistedBatch → β) (batch : ℕ) :
    (Table.empty.insertAll ((snapshotBatches t).map fun pb => (pb.batch, f pb))).get? batch =
      (t.get? batch).map fun b => f (b.persist batch) :=
  Table.get?_insertAll_of_perm (f := fun batch (b : BatchMeta) => b.persist batch)
    (List.perm_insertionSort ..) fun _ _ => rfl

theorem get?_snapshotRemotes (t : Remotes) (f : PersistedRemoteWorker → β) (id : ℕ) :
    (Table.empty.insertAll
    (((t.entries.map fun x => (⟨x.1, x.2⟩ : PersistedRemoteWorker)).insertionSort
      fun a b => a.id ≤ b.id).map fun p => (p.id, f p))).get? id =
        (t.get? id).map fun r => f ⟨id, r⟩ :=
  Table.get?_insertAll_of_perm (f := fun id r => PersistedRemoteWorker.mk id r)
    (List.perm_insertionSort ..) fun _ _ => rfl

end Snapshots

namespace Driver

variable {cfg : Config} {w : World} {d d' : Driver}

/-- Somebody in the books is said to be there, or nothing of a trail is done. -/
def Restated (d : Driver) (e : Effect) : Prop :=
  e.plain = true ∨ (∃ id wk, d.workers.get? id = some wk ∧ e.isCard wk.batch wk.parent = true) ∨
    ∃ id r, d.remotes.get? id = some r ∧ e.isCard r.batch r.parent = true

/-! ### The stages -/

/-- Loading the workers. -/
structure LoadedWorkers (w : World) (rows : List PersistedWorker) (d d' : Driver) : Prop where
  workers : d'.workers = d.workers.insertAll (rows.map fun pw => (pw.id, pw.hydrate w.now))
  batches : d'.batches = d.batches
  remotes : d'.remotes = d.remotes
  out : d'.out = d.out
  seq : d'.txnSeq = d.txnSeq
  nextId : d.nextWorkerId ≤ d'.nextWorkerId
  nextBatch : d.nextBatchId ≤ d'.nextBatchId
  ids : ∀ pw ∈ rows, pw.id < d'.nextWorkerId ∧ pw.batch < d'.nextBatchId

theorem loadedWorkers (rows : List PersistedWorker) (d : Driver) :
    LoadedWorkers w rows d (d.hydrateWorkers w rows) := by
  induction rows generalizing d with
  | nil => exact ⟨rfl, rfl, rfl, rfl, rfl, le_rfl, le_rfl, by simp⟩
  | cons pw rows ih =>
    obtain ⟨hworkers, hbatches, hremotes, hout, hseq, hid, hbatch, hids⟩ := ih { d with
      nextWorkerId := max d.nextWorkerId (pw.id + 1)
      nextBatchId := max d.nextBatchId (pw.batch + 1)
      nextWorkerSid := max d.nextWorkerSid (pw.session + 1)
      workers := d.workers.insert pw.id (pw.hydrate w.now) }
    refine ⟨hworkers, hbatches, hremotes, hout, hseq, (le_max_left ..).trans hid,
      (le_max_left ..).trans hbatch, ?_⟩
    intro x hx
    rcases List.mem_cons.mp hx with rfl | hx
    · exact ⟨Nat.lt_of_succ_le ((le_max_right ..).trans hid),
        Nat.lt_of_succ_le ((le_max_right ..).trans hbatch)⟩
    · exact hids x hx

/-- Loading the ledger. -/
structure LoadedBatches (rows : List PersistedBatch) (d d' : Driver) : Prop where
  batches : d'.batches = d.batches.insertAll (rows.map fun pb => (pb.batch, pb.hydrate))
  workers : d'.workers = d.workers
  remotes : d'.remotes = d.remotes
  out : d'.out = d.out
  seq : d'.txnSeq = d.txnSeq
  nextId : d'.nextWorkerId = d.nextWorkerId
  nextBatch : d.nextBatchId ≤ d'.nextBatchId
  ids : ∀ pb ∈ rows, pb.batch < d'.nextBatchId

theorem loadedBatches (rows : List PersistedBatch) (d : Driver) :
    LoadedBatches rows d (d.hydrateBatches rows) := by
  induction rows generalizing d with
  | nil => exact ⟨rfl, rfl, rfl, rfl, rfl, rfl, le_rfl, by simp⟩
  | cons pb rows ih =>
    obtain ⟨hbatches, hworkers, hremotes, hout, hseq, hid, hbatch, hids⟩ := ih { d with
      nextBatchId := max d.nextBatchId (pb.batch + 1)
      batches := d.batches.insert pb.batch pb.hydrate }
    refine ⟨hbatches, hworkers, hremotes, hout, hseq, hid, (le_max_left ..).trans hbatch, ?_⟩
    intro x hx
    rcases List.mem_cons.mp hx with rfl | hx
    · exact Nat.lt_of_succ_le ((le_max_right ..).trans hbatch)
    · exact hids x hx

/-- Loading the mirror rows. -/
structure LoadedRemotes (rows : List PersistedRemoteWorker) (d d' : Driver) : Prop where
  remotes : d'.remotes = d.remotes.insertAll (rows.map fun p => (p.id, p.reload))
  workers : d'.workers = d.workers
  batches : d'.batches = d.batches
  out : d'.out = d.out
  seq : d'.txnSeq = d.txnSeq
  nextId : d.nextWorkerId ≤ d'.nextWorkerId
  nextBatch : d.nextBatchId ≤ d'.nextBatchId
  ids : ∀ p ∈ rows, p.id < d'.nextWorkerId

theorem loadedRemotes (rows : List PersistedRemoteWorker) (d : Driver) :
    LoadedRemotes rows d (d.hydrateRemotes rows) := by
  induction rows generalizing d with
  | nil => exact ⟨rfl, rfl, rfl, rfl, rfl, le_rfl, le_rfl, by simp⟩
  | cons p rows ih =>
    obtain ⟨hremotes, hworkers, hbatches, hout, hseq, hid, hbatch, hids⟩ := ih { d with
      nextWorkerId := max d.nextWorkerId (p.id + 1)
      nextBatchId := max d.nextBatchId (p.row.batch + 1)
      remotes := d.remotes.insert p.id p.reload }
    refine ⟨hremotes, hworkers, hbatches, hout, hseq, (le_max_left ..).trans hid,
      (le_max_left ..).trans hbatch, ?_⟩
    intro x hx
    rcases List.mem_cons.mp hx with rfl | hx
    · exact Nat.lt_of_succ_le ((le_max_right ..).trans hid)
    · exact hids x hx

/-- The ledger is completed for workers whose batch it does not have. -/
structure Reconciled (d d' : Driver) : Prop where
  workers : d'.workers = d.workers
  remotes : d'.remotes = d.remotes
  out : d'.out = d.out
  seq : d'.txnSeq = d.txnSeq
  nextId : d'.nextWorkerId = d.nextWorkerId
  nextBatch : d'.nextBatchId = d.nextBatchId
  batches : ∀ x ∈ d'.batches.entries, x ∈ d.batches.entries ∨
    ∃ wk ∈ d.workers.values, wk.batch = x.1
  complete : (∀ wk ∈ d.workers.values, d.batches.contains wk.batch = true) → d'.batches = d.batches

theorem Reconciled.one {d₁ : Driver} (h : Reconciled d d₁) {wk : Worker}
    (hwk : wk ∈ d.workers.values) : Reconciled d (reconcileOne w d₁ wk) := by
  unfold reconcileOne
  split
  · exact h
  · rename_i hmissing
    refine ⟨h.workers, h.remotes, h.out, h.seq, h.nextId, h.nextBatch, ?_, ?_⟩
    · intro x hx
      rcases List.mem_append.mp hx with hx | hx
      · exact h.batches x (List.mem_filter.mp hx).1
      · rw [List.mem_singleton.mp hx]
        exact Or.inr ⟨wk, hwk, rfl⟩
    · intro hall
      rw [h.complete hall] at hmissing
      exact absurd (hall wk hwk) hmissing

theorem reconciled (d : Driver) : Reconciled d (d.reconcileBatches w) := by
  suffices h : ∀ (l : List Worker), (∀ wk ∈ l, wk ∈ d.workers.values) → ∀ d₁, Reconciled d d₁ →
      Reconciled d (l.foldl (reconcileOne w) d₁) from
    h _ (fun _ h => h) d ⟨rfl, rfl, rfl, rfl, rfl, rfl, fun _ h => Or.inl h, fun _ => rfl⟩
  intro l hl
  induction l with
  | nil => exact fun d₁ h => h
  | cons wk l ih =>
    intro d₁ h
    exact ih (fun x hx => hl x (by simp [hx])) _ (h.one (hl wk (by simp)))

/-- Only what is in the books is said, and the books stay. -/
structure Restates (d d' : Driver) : Prop where
  core : d'.core = d.core
  out : ∃ effs, d'.out = d.out ++ effs ∧ ∀ e ∈ effs, Restated d e

theorem Restates.of_aside (h : Aside d d') : Restates d d' := by
  obtain ⟨effs, hout, hplain⟩ := h.out
  exact ⟨h.core, effs, hout, fun e he => Or.inl (hplain e he)⟩

theorem Restated.congr {e : Effect} (he : Restated d e) (hworkers : d'.workers = d.workers)
    (hremotes : d'.remotes = d.remotes) : Restated d' e := by
  unfold Restated at *
  rwa [hworkers, hremotes]

theorem Restates.trans {d'' : Driver} (h : Restates d d') (h' : Restates d' d'') :
    Restates d d'' := by
  obtain ⟨effs, hout, heffs⟩ := h.out
  obtain ⟨effs', hout', heffs'⟩ := h'.out
  refine ⟨h'.core.trans h.core, effs ++ effs', by rw [hout', hout, List.append_assoc], ?_⟩
  intro e he
  exact (List.mem_append.mp he).elim (heffs e) fun he => (heffs' e he).congr
    (congrArg Core.workers h.core.symm) (congrArg Core.remotes h.core.symm)

theorem Restates.foldl {α : Type*} {f : Driver → α → Driver} (h : ∀ d a, Restates d (f d a))
    (l : List α) (d : Driver) : Restates d (l.foldl f d) := by
  induction l generalizing d with
  | nil => exact .of_aside (.refl d)
  | cons a l ih => exact (h d a).trans (ih _)

theorem restates_emitReloadedWorkers (d : Driver) : Restates d d.emitReloadedWorkers := by
  refine .foldl (fun d id => ?_) _ d
  cases hget : d.workers.get? id with
  | none => exact .of_aside (.refl d)
  | some wk =>
    refine ⟨rfl, [_], rfl, fun e he => Or.inr (Or.inl ⟨id, wk, hget, ?_⟩)⟩
    rw [List.mem_singleton.mp he]
    simp [Effect.isCard]

theorem restates_emitReloadedRemotes (d : Driver) : Restates d d.emitReloadedRemotes := by
  refine .foldl (fun d id => ?_) _ d
  cases hget : d.remotes.get? id with
  | none => exact .of_aside (.refl d)
  | some r =>
    refine ⟨rfl, [_], rfl, fun e he => Or.inr (Or.inr ⟨id, r, hget, ?_⟩)⟩
    rw [List.mem_singleton.mp he]
    simp [Effect.isCard]

theorem aside_reloadMandalas (d : Driver) (k : Disk) : Aside d (d.reloadMandalas w k) := by
  unfold reloadMandalas
  extract_lets d₁
  have h₁ : Aside d d₁ := .of_eq rfl rfl
  refine h₁.trans (.foldl (fun d id => ?_) _ d₁)
  have hcells : Aside d ((k.loadTree id).values.foldl (reloadCell w id) d) := by
    refine .foldl (fun d c => ?_) _ d
    unfold reloadCell
    extract_lets d₂
    have h₂ : Aside d d₂ := by
      unfold d₂
      split
      · exact .emit rfl
      · exact .refl d
    exact ⟨h₂.core, h₂.out⟩
  exact ⟨hcells.core, hcells.out⟩

theorem aside_resumePolls (d : Driver) : Aside d (d.resumePolls cfg w) := by
  refine .foldl (fun d x => ?_) _ d
  extract_lets unsettled target
  split
  · exact .of_eq rfl rfl
  · exact .refl d

/-! ### The whole boot -/

/-- The books after the workers and the ledger were loaded. -/
structure Loaded (w : World) (k : Disk) (d : Driver) : Prop where
  workers : d.workers = Table.empty.insertAll (k.workerRows.map fun pw => (pw.id, pw.hydrate w.now))
  batches : d.batches = Table.empty.insertAll (k.batchRows.map fun pb => (pb.batch, pb.hydrate))
  remotes : d.remotes = Table.empty
  ids : ∀ pw ∈ k.workerRows, pw.id < d.nextWorkerId ∧ pw.batch < d.nextBatchId
  batchIds : ∀ pb ∈ k.batchRows, pb.batch < d.nextBatchId
  out : ∀ e ∈ d.out, Restated d e

/-- What was said while nothing had been said before. -/
theorem Restates.restated (h : Restates d d') (hd : ∀ e ∈ d.out, Restated d e) :
    ∀ e ∈ d'.out, Restated d' e := by
  obtain ⟨effs, hout, heffs⟩ := h.out
  intro e he
  rw [hout] at he
  exact ((List.mem_append.mp he).elim (hd e) (heffs e)).congr (congrArg Core.workers h.core)
    (congrArg Core.remotes h.core)

theorem loaded_loadBooks (w : World) (k : Disk) : Loaded w k (loadBooks w k) := by
  unfold loadBooks
  split
  · rename_i txn htxn
    have hrows : k.workerRows = txn.workers := by simp [Disk.workerRows, htxn]
    have hledger : k.batchRows = txn.batches := by simp [Disk.batchRows, htxn]
    generalize hd₁ : ({ blank with txnSeq := txn.seq } : Driver).hydrateWorkers w txn.workers = d₁
    have h₁ : LoadedWorkers w txn.workers { blank with txnSeq := txn.seq } d₁ :=
      hd₁ ▸ loadedWorkers ..
    generalize hd₂ : d₁.hydrateBatches txn.batches = d₂
    have h₂ : LoadedBatches txn.batches d₁ d₂ := hd₂ ▸ loadedBatches ..
    have h₃ := restates_emitReloadedWorkers d₂
    generalize d₂.emitReloadedWorkers = d₃ at h₃
    have hid : d₃.nextWorkerId = d₁.nextWorkerId :=
      (congrArg Core.nextWorkerId h₃.core).trans h₂.nextId
    have hbatch : d₃.nextBatchId = d₂.nextBatchId := congrArg Core.nextBatchId h₃.core
    refine ⟨?_, ?_, ?_, ?_, ?_, ?_⟩
    · rw [hrows, show d₃.workers = d₂.workers from congrArg Core.workers h₃.core, h₂.workers]
      exact h₁.workers
    · rw [hledger, show d₃.batches = d₂.batches from congrArg Core.batches h₃.core, h₂.batches,
        h₁.batches]
      rfl
    · rw [show d₃.remotes = d₂.remotes from congrArg Core.remotes h₃.core, h₂.remotes, h₁.remotes]
      rfl
    · rw [hrows, hid, hbatch]
      exact fun pw hpw => ⟨(h₁.ids pw hpw).1, Nat.lt_of_lt_of_le (h₁.ids pw hpw).2 h₂.nextBatch⟩
    · rw [hledger, hbatch]
      exact h₂.ids
    · refine h₃.restated ?_
      rw [h₂.out, h₁.out]
      simp [blank]
  · rename_i htxn
    have hrows : k.workerRows = k.workersFile := by simp [Disk.workerRows, htxn]
    have hledger : k.batchRows = k.batchesFile := by simp [Disk.batchRows, htxn]
    generalize hd₁ : blank.hydrateWorkers w k.workersFile = d₁
    have h₁ : LoadedWorkers w k.workersFile blank d₁ := hd₁ ▸ loadedWorkers ..
    have h₂ := restates_emitReloadedWorkers d₁
    generalize d₁.emitReloadedWorkers = d₂ at h₂
    generalize hd₃ : d₂.hydrateBatches k.batchesFile = d₃
    have h₃ : LoadedBatches k.batchesFile d₂ d₃ := hd₃ ▸ loadedBatches ..
    have hid : d₃.nextWorkerId = d₁.nextWorkerId :=
      h₃.nextId.trans (congrArg Core.nextWorkerId h₂.core)
    have hbatch : d₁.nextBatchId ≤ d₃.nextBatchId :=
      (congrArg Core.nextBatchId h₂.core).ge.trans h₃.nextBatch
    refine ⟨?_, ?_, ?_, ?_, ?_, ?_⟩
    · rw [hrows, h₃.workers, show d₂.workers = d₁.workers from congrArg Core.workers h₂.core]
      exact h₁.workers
    · rw [hledger, h₃.batches, show d₂.batches = d₁.batches from congrArg Core.batches h₂.core,
        h₁.batches]
      rfl
    · rw [h₃.remotes, show d₂.remotes = d₁.remotes from congrArg Core.remotes h₂.core, h₁.remotes]
      rfl
    · rw [hrows, hid]
      exact fun pw hpw => ⟨(h₁.ids pw hpw).1, Nat.lt_of_lt_of_le (h₁.ids pw hpw).2 hbatch⟩
    · rw [hledger]
      exact h₃.ids
    · rw [h₃.out]
      intro e he
      refine (h₂.restated ?_ e he).congr h₃.workers h₃.remotes
      rw [h₁.out]
      simp [blank]

/-- **What a boot makes of the files.** -/
structure Booted (w : World) (k : Disk) (d : Driver) : Prop where
  workers : d.workers = Table.empty.insertAll (k.workerRows.map fun pw => (pw.id, pw.hydrate w.now))
  remotes : d.remotes = Table.empty.insertAll (k.remotesFile.map fun p => (p.id, p.reload))
  complete : (∀ wk ∈ d.workers.values, (Table.empty.insertAll (k.batchRows.map fun pb =>
    (pb.batch, pb.hydrate))).contains wk.batch = true) →
      d.batches = Table.empty.insertAll (k.batchRows.map fun pb => (pb.batch, pb.hydrate))
  fresh : d.Fresh
  out : ∀ e ∈ d.out, Restated d e

/-- An entry that was loaded is one of the rows. -/
theorem mem_of_loaded {α β : Type*} {t : Table ℕ α} {rows : List β} {key : β → ℕ} {val : β → α}
    (h : t = Table.empty.insertAll (rows.map fun r => (key r, val r))) {x : ℕ × α}
    (hx : x ∈ t.entries) : ∃ r ∈ rows, key r = x.1 ∧ val r = x.2 := by
  have hget := Table.mem_iff_get?.mp hx
  rw [h] at hget
  rcases Table.mem_of_get?_insertAll hget with hmem | hget
  · obtain ⟨r, hr, hrx⟩ := List.mem_map.mp hmem
    exact ⟨r, hr, congrArg Prod.fst hrx, congrArg Prod.snd hrx⟩
  · simp at hget

theorem booted (cfg : Config) (w : World) (k : Disk) : Booted w k (boot cfg w k) := by
  unfold boot
  extract_lets d₂
  have h₀ := loaded_loadBooks w k
  have h₁ : Reconciled (loadBooks w k) ((loadBooks w k).reconcileBatches w) := reconciled _
  have h₂ : Aside ((loadBooks w k).reconcileBatches w) d₂ := aside_reloadMandalas ..
  have h₃ := loadedRemotes k.remotesFile d₂
  have h₄ : Restates (d₂.hydrateRemotes k.remotesFile)
      (((d₂.hydrateRemotes k.remotesFile).emitReloadedRemotes).resumePolls cfg w) :=
    (restates_emitReloadedRemotes _).trans (.of_aside (aside_resumePolls _))
  generalize d₂.hydrateRemotes k.remotesFile = d₃ at h₃ h₄
  generalize (d₃.emitReloadedRemotes).resumePolls cfg w = d₄ at h₄
  generalize (loadBooks w k).reconcileBatches w = d₁ at h₁ h₂
  have hworkers₂ : d₂.workers = (loadBooks w k).workers :=
    (congrArg Core.workers h₂.core).trans h₁.workers
  have hworkers : d₄.workers = (loadBooks w k).workers :=
    ((congrArg Core.workers h₄.core).trans h₃.workers).trans hworkers₂
  have hremotes : d₄.remotes = d₃.remotes := congrArg Core.remotes h₄.core
  have hremotes₂ : d₂.remotes = Table.empty :=
    ((congrArg Core.remotes h₂.core).trans h₁.remotes).trans h₀.remotes
  have hbatches : d₄.batches = d₁.batches :=
    ((congrArg Core.batches h₄.core).trans h₃.batches).trans (congrArg Core.batches h₂.core)
  have hid₃ : d₄.nextWorkerId = d₃.nextWorkerId := congrArg Core.nextWorkerId h₄.core
  have hid : (loadBooks w k).nextWorkerId ≤ d₄.nextWorkerId := by
    rw [hid₃, ← h₁.nextId]
    exact (congrArg Core.nextWorkerId h₂.core).ge.trans h₃.nextId
  have hbatchId : (loadBooks w k).nextBatchId ≤ d₄.nextBatchId := by
    rw [← h₁.nextBatch]
    exact ((congrArg Core.nextBatchId h₂.core).ge.trans h₃.nextBatch).trans
      (congrArg Core.nextBatchId h₄.core).ge
  have hids {wk : Worker} (hwk : wk ∈ (loadBooks w k).workers.values) :
      wk.batch < d₄.nextBatchId := by
    obtain ⟨x, hx, rfl⟩ := List.mem_map.mp hwk
    obtain ⟨pw, hpw, -, hval⟩ := mem_of_loaded h₀.workers hx
    rw [← hval]
    exact Nat.lt_of_lt_of_le (h₀.ids pw hpw).2 hbatchId
  refine ⟨hworkers.trans h₀.workers, ?_, ?_, ⟨?_, ?_, ?_⟩, ?_⟩
  · rw [hremotes, h₃.remotes, hremotes₂]
  · intro hall
    rw [hworkers] at hall
    rw [hbatches, ← h₀.batches]
    exact h₁.complete (h₀.batches ▸ hall)
  · intro x hx
    rw [hworkers] at hx
    obtain ⟨pw, hpw, hkey, -⟩ := mem_of_loaded h₀.workers hx
    rw [← hkey]
    exact Nat.lt_of_lt_of_le (h₀.ids pw hpw).1 hid
  · intro x hx
    rw [hremotes] at hx
    obtain ⟨p, hp, hkey, -⟩ := mem_of_loaded (h₃.remotes.trans (by rw [hremotes₂])) hx
    rw [← hkey, hid₃]
    exact h₃.ids p hp
  · intro x hx
    rw [hbatches] at hx
    rcases h₁.batches x hx with hx | ⟨wk, hwk, hbatch⟩
    · obtain ⟨pb, hpb, hkey, -⟩ := mem_of_loaded h₀.batches hx
      rw [← hkey]
      exact Nat.lt_of_lt_of_le (h₀.batchIds pb hpb) hbatchId
    · rw [← hbatch]
      exact hids hwk
  · refine h₄.restated fun e he => ?_
    obtain ⟨effs, hout, hplain⟩ := h₂.out
    rw [h₃.out, hout, h₁.out] at he
    rcases List.mem_append.mp he with he | he
    · rcases h₀.out e he with he | ⟨id, wk, hget, he⟩ | ⟨id, r, hget, he⟩
      · exact Or.inl he
      · exact Or.inr (Or.inl ⟨id, wk, by rw [h₃.workers, hworkers₂, hget], he⟩)
      · rw [h₀.remotes] at hget
        simp at hget
    · exact Or.inl (hplain e he)

/-- A worker that was loaded is parked or has ended, and has no turn. -/
theorem of_booted {k : Disk} (h : Booted w k d) {id : ℕ} {wk : Worker}
    (hget : d.workers.get? id = some wk) :
    (wk.state = .parked ∨ wk.isTerminal = true) ∧ wk.turnInflight = false := by
  obtain ⟨pw, -, -, rfl⟩ := mem_of_loaded h.workers (Table.mem_of_get? hget)
  refine ⟨?_, rfl⟩
  cases hterm : terminal pw.state with
  | true =>
    have : parkedForm pw.state = pw.state := by simp [parkedForm, hterm]
    exact Or.inr (by simp [Worker.isTerminal, PersistedWorker.hydrate, this, hterm])
  | false => exact Or.inl (by simp [PersistedWorker.hydrate, parkedForm, hterm])

end Driver

end ApexOS.Fabrica

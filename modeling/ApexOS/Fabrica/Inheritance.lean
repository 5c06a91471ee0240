import ApexOS.Fabrica.Arming
import ApexOS.Fabrica.Durable
import ApexOS.Fabrica.Slots

/-!
# Who inherits auto-approval, over runs

`Fabrica.Arming` says what every act does to the workers and to what they are armed with. Here that
becomes a law of runs.

A grant is a point of the run: a fan-out with `yolo: "inherit"` by a session that was in the set.
The workers that carry it are those of the batch it opened. They wait with it while they are queued,
and have it from their admission to their rest; a boot parks everybody and starts with an empty set,
so no grant outlives its process.

A pin is found by its session, so two workers must never share one. Sessions are given out by a
counter that a boot sets behind every session on the disk, and the disk has only workers that are in
the books.

## Main definitions

* `Driver.Seated`: the sessions of the workers are their own
* `Driver.Pinned`: the pins are the models of the resident workers
* `Driver.ArmedBy`: who is armed, and vetted
* `Node.Granted`: a fan-out that let its batch inherit
* `Node.Inherits`: the law

## Main results

* `Driver.ArmedBy.of_arming`, `Driver.Pinned.of_arms`: what an act preserves
* `Driver.Move.books`: the files have only workers that are in the books
* `Node.inherited_of_sparesWorkers`: the law, over every run
-/

namespace ApexOS.Fabrica

open ApexOS.Agentd (SessionId ActionId WorkerState)

namespace Driver

variable {cfg : Config} {w : World} {i : Input} {d₀ d d' : Driver} {id : ℕ} {wk : Worker}

/-! ### The counters -/

theorem Posts.counters (h : Posts cfg w i d₀ d d') :
    d.nextWorkerId ≤ d'.nextWorkerId ∧ d.nextBatchId ≤ d'.nextBatchId := by
  have of_eq (h : d'.nextWorkerId = d.nextWorkerId) (h' : d'.nextBatchId = d.nextBatchId) :
      d.nextWorkerId ≤ d'.nextWorkerId ∧ d.nextBatchId ≤ d'.nextBatchId := ⟨h.ge, h'.ge⟩
  have of_ledger {L : Ledger} (h : d'.core.ledger = L) :
      d'.nextWorkerId = L.nextWorkerId ∧ d'.nextBatchId = L.nextBatchId :=
    ⟨congrArg Ledger.nextWorkerId h, congrArg Ledger.nextBatchId h⟩
  cases h with
  | same h => exact of_eq (of_ledger h).1 (of_ledger h).2
  | row hget h => exact of_eq (of_ledger h).1 (of_ledger h).2
  | report h => exact of_eq (of_ledger h).1 (of_ledger h).2
  | batchOpened hm hd h => exact ⟨(of_ledger h).1.ge, (Nat.le_succ _).trans (of_ledger h).2.ge⟩
  | workerMinted h => exact ⟨(Nat.le_succ _).trans (of_ledger h).1.ge, (of_ledger h).2.ge⟩
  | rowMinted h => exact ⟨(Nat.le_succ _).trans (of_ledger h).1.ge, (of_ledger h).2.ge⟩
  | lost hid hbatch hsid h => exact ⟨hid, hbatch⟩

theorem Arms.ids (h : Arms cfg w i d d') {x : ℕ × Worker} (hx : x ∈ d'.workers.entries) :
    ∃ y ∈ d.workers.entries, y.1 = x.1 := by
  cases h with
  | still hworkers => exact ⟨x, hworkers ▸ hx, rfl⟩
  | stays hget hworkers => exact entries_modify_fst (hworkers ▸ hx)
  | rests hget hworkers => exact entries_modify_fst (hworkers ▸ hx)
  | wakes hget hworkers => exact entries_modify_fst (hworkers ▸ hx)
  | admission hget hqueued hworkers => exact entries_modify_fst (hworkers ▸ hx)
  | armed hi hworkers => exact ⟨x, hworkers ▸ hx, rfl⟩
  | disarmed hworkers => exact ⟨x, hworkers ▸ hx, rfl⟩

theorem ids_of_arming (h : Relation.ReflTransGen (Arming cfg w i) d d') {x : ℕ × Worker}
    (hx : x ∈ d'.workers.entries) : ∃ y ∈ d.workers.entries, y.1 = x.1 := by
  induction h generalizing x with
  | refl => exact ⟨x, hx, rfl⟩
  | tail _ hlast ih =>
    obtain ⟨y, hy, hxy⟩ := hlast.1.ids hx
    obtain ⟨z, hz, hyz⟩ := ih hy
    exact ⟨z, hz, hyz.trans hxy⟩

/-- What an act does to the mirror rows. -/
inductive PostsRows (d d' : Driver) : Prop
  | same (h : d'.remotes = d.remotes)
  | row {id : ℕ} {r r' : RemoteWorker} (hget : d.remotes.get? id = some r)
      (h : d'.remotes = d.remotes.modify id fun _ => r')
  | minted {r : RemoteWorker} (h : d'.remotes = d.remotes.insert d.nextWorkerId r)
      (hnext : d'.nextWorkerId = d.nextWorkerId + 1)

theorem Posts.rows (h : Posts cfg w i d₀ d d') : PostsRows d d' := by
  cases h with
  | same h => exact .same (congrArg Ledger.remotes h)
  | row hget h => exact .row hget (congrArg Ledger.remotes h)
  | report h => exact .same (congrArg Ledger.remotes h)
  | batchOpened hm hd h => exact .same (congrArg Ledger.remotes h)
  | workerMinted h => exact .same (congrArg Ledger.remotes h)
  | rowMinted h =>
    exact .minted (congrArg Ledger.remotes h) (congrArg Ledger.nextWorkerId h)
  | lost hid hbatch hsid h => exact .same (congrArg Ledger.remotes h)

/-- What an act does to the ledger of batches. -/
inductive PostsBatches (cfg : Config) (w : World) (i : Input) (d₀ d d' : Driver) : Prop
  | same (h : d'.batches = d.batches)
  | report {batch : ℕ} (h : d'.batches = d.batches.modify batch fun b =>
      { b with reported := true, inlineAck := none })
  | opened {b : BatchMeta} {items : List MintItem} {yolo : Bool}
      (hm : Mints cfg w i d₀ b items yolo)
      (hd : d = d₀) (h : d'.batches = d.batches.insert d.nextBatchId b)
      (hnext : d'.nextBatchId = d.nextBatchId + 1)

theorem Posts.batches (h : Posts cfg w i d₀ d d') : PostsBatches cfg w i d₀ d d' := by
  cases h with
  | same h => exact .same (congrArg Ledger.batches h)
  | row hget h => exact .same (congrArg Ledger.batches h)
  | report h => exact .report (congrArg Ledger.batches h)
  | batchOpened hm hd h =>
    exact .opened hm hd (congrArg Ledger.batches h) (congrArg Ledger.nextBatchId h)
  | workerMinted h => exact .same (congrArg Ledger.batches h)
  | rowMinted h => exact .same (congrArg Ledger.batches h)
  | lost hid hbatch hsid h => exact .same (congrArg Ledger.batches h)

/-- The counters stay ahead. -/
theorem Act.fresh (h : Act cfg w i d₀ d d') (hd : d.Fresh) : d'.Fresh := by
  obtain ⟨hworker, hbatch⟩ := h.posts.counters
  refine ⟨fun x hx => ?_, fun x hx => ?_, fun x hx => ?_⟩
  · have old {y : ℕ × Worker} (hy : y ∈ d.workers.entries) : y.1 < d'.nextWorkerId :=
      Nat.lt_of_lt_of_le (hd.worker y hy) hworker
    rcases h.arms with h | ⟨b, items, yolo, item, h⟩
    · obtain ⟨y, hy, hxy⟩ := ids_of_arming h hx
      exact hxy ▸ old hy
    · rw [h.workers] at hx
      rcases List.mem_append.mp hx with hx | hx
      · exact old (List.mem_filter.mp hx).1
      · rw [List.mem_singleton.mp hx, h.nextId]
        exact Nat.lt_succ_self _
  · have old {y : ℕ × RemoteWorker} (hy : y ∈ d.remotes.entries) : y.1 < d'.nextWorkerId :=
      Nat.lt_of_lt_of_le (hd.remote y hy) hworker
    cases h.posts.rows with
    | same h => exact old (h ▸ hx)
    | row hget h =>
      obtain ⟨y, hy, hxy⟩ := entries_modify_fst (h ▸ hx)
      exact hxy ▸ old hy
    | minted h hnext =>
      rw [h] at hx
      rcases List.mem_append.mp hx with hx | hx
      · exact old (List.mem_filter.mp hx).1
      · rw [List.mem_singleton.mp hx, hnext]
        exact Nat.lt_succ_self _
  · have old {y : ℕ × BatchMeta} (hy : y ∈ d.batches.entries) : y.1 < d'.nextBatchId :=
      Nat.lt_of_lt_of_le (hd.batch y hy) hbatch
    cases h.posts.batches with
    | same h => exact old (h ▸ hx)
    | report h =>
      obtain ⟨y, hy, hxy⟩ := entries_modify_fst (h ▸ hx)
      exact hxy ▸ old hy
    | opened hm heq h hnext =>
      rw [h] at hx
      rcases List.mem_append.mp hx with hx | hx
      · exact old (List.mem_filter.mp hx).1
      · rw [List.mem_singleton.mp hx, hnext]
        exact Nat.lt_succ_self _

/-! ### Sessions -/

theorem Kin.trans {wk₁ wk₂ wk₃ : Worker} (h : Kin wk₁ wk₂) (h' : Kin wk₂ wk₃) : Kin wk₁ wk₃ :=
  ⟨h'.batch.trans h.batch, h'.parent.trans h.parent, h'.session.trans h.session,
    h'.yolo.trans h.yolo, h'.model.trans h.model, fun hq => h.queued (h'.queued hq)⟩

/-- A worker after an act that mints nobody was there before. -/
theorem Arms.prev (h : Arms cfg w i d d') {wk' : Worker} (hget : d'.workers.get? id = some wk') :
    ∃ wk, d.workers.get? id = some wk ∧ Kin wk wk' := by
  have of_same (hworkers : d'.workers = d.workers) :
      ∃ wk, d.workers.get? id = some wk ∧ Kin wk wk' := ⟨wk', hworkers ▸ hget, .refl wk'⟩
  have of_modify {id' : ℕ} {wk₁ wk₂ : Worker} (hget₁ : d.workers.get? id' = some wk₁)
      (hworkers : d'.workers = d.workers.modify id' fun _ => wk₂) (hkin : Kin wk₁ wk₂) :
      ∃ wk, d.workers.get? id = some wk ∧ Kin wk wk' := by
    by_cases hid : id = id'
    · subst hid
      obtain rfl : wk₂ = wk' := Option.some.inj ((get?_modified hget₁ hworkers).symm.trans hget)
      exact ⟨wk₁, hget₁, hkin⟩
    · rw [hworkers, Table.get?_modify_of_ne hid] at hget
      exact ⟨wk', hget, .refl wk'⟩
  cases h with
  | still hworkers => exact of_same hworkers
  | stays hget₁ hworkers hkin => exact of_modify hget₁ hworkers hkin
  | rests hget₁ hworkers hkin => exact of_modify hget₁ hworkers hkin
  | wakes hget₁ hworkers hkin => exact of_modify hget₁ hworkers hkin
  | admission hget₁ hqueued hworkers =>
    exact of_modify hget₁ hworkers ⟨rfl, rfl, rfl, rfl, rfl, fun _ => hqueued⟩
  | armed hi hworkers => exact of_same hworkers
  | disarmed hworkers => exact of_same hworkers

theorem prev_of_arming (h : Relation.ReflTransGen (Arming cfg w i) d d') {wk' : Worker}
    (hget : d'.workers.get? id = some wk') : ∃ wk, d.workers.get? id = some wk ∧ Kin wk wk' := by
  induction h generalizing wk' with
  | refl => exact ⟨wk', hget, .refl wk'⟩
  | tail _ hlast ih =>
    obtain ⟨wk₁, hget₁, hkin₁⟩ := hlast.1.prev hget
    obtain ⟨wk, hget, hkin⟩ := ih hget₁
    exact ⟨wk, hget, hkin.trans hkin₁⟩

/-- No two workers share a session. -/
def Apart (d : Driver) : Prop :=
  ∀ id id' wk wk', d.workers.get? id = some wk → d.workers.get? id' = some wk' →
    wk.session = wk'.session → id = id'

/-- The sessions of the workers are their own, and the counter is behind them all. -/
structure Seated (d : Driver) : Prop where
  range : ∀ id wk, d.workers.get? id = some wk →
    2 ^ 62 ≤ wk.session.toNat ∧ wk.session.toNat ≤ 2 ^ 62 + id ∧ id < 2 ^ 62
  below : ∀ id wk, d.workers.get? id = some wk → wk.session.toNat < d.nextWorkerSid.toNat
  apart : d.Apart
  sid : 2 ^ 62 ≤ d.nextWorkerSid.toNat ∧ d.nextWorkerSid.toNat ≤ 2 ^ 62 + d.nextWorkerId

theorem Apart.of_prev (hd : d.Apart) (hprev : ∀ id wk', d'.workers.get? id = some wk' →
    ∃ wk, d.workers.get? id = some wk ∧ wk'.session = wk.session) : d'.Apart := by
  intro id id' wk₁ wk₂ hget₁ hget₂ heq
  obtain ⟨wk₁', hget₁', hsession₁⟩ := hprev id wk₁ hget₁
  obtain ⟨wk₂', hget₂', hsession₂⟩ := hprev id' wk₂ hget₂
  exact hd id id' wk₁' wk₂' hget₁' hget₂' (hsession₁.symm.trans (heq.trans hsession₂))

theorem Posts.sids (h : Posts cfg w i d₀ d d') : SidsUsed d d' := by
  have of_eq (hid : d.nextWorkerId ≤ d'.nextWorkerId) (h : d'.nextWorkerSid = d.nextWorkerSid) :
      SidsUsed d d' := ⟨0, hid, h.trans (UInt64.add_zero _).symm⟩
  have hid := h.counters.1
  cases h with
  | same h => exact of_eq hid (congrArg Ledger.nextWorkerSid h)
  | row hget h => exact of_eq hid (congrArg Ledger.nextWorkerSid h)
  | report h => exact of_eq hid (congrArg Ledger.nextWorkerSid h)
  | batchOpened hm hd h => exact of_eq hid (congrArg Ledger.nextWorkerSid h)
  | workerMinted h =>
    exact ⟨1, (congrArg Ledger.nextWorkerId h).ge, congrArg Ledger.nextWorkerSid h⟩
  | rowMinted h => exact of_eq hid (congrArg Ledger.nextWorkerSid h)
  | lost hid hbatch hsid h => exact hsid

theorem toNat_add_of_lt {s : SessionId} {k : ℕ} (h : s.toNat + k < 2 ^ 64) :
    (s + UInt64.ofNat k).toNat = s.toNat + k := by
  rw [UInt64.toNat_add, UInt64.toNat_ofNat', Nat.mod_eq_of_lt (by omega : k < 2 ^ 64)]
  exact Nat.mod_eq_of_lt h

/-- The counter of the sessions goes up, as long as there are ids. -/
theorem Seated.sid_of_used (hd : d.Seated) (h : SidsUsed d d') (hids : d'.nextWorkerId ≤ 2 ^ 62) :
    d.nextWorkerSid.toNat ≤ d'.nextWorkerSid.toNat ∧
      d'.nextWorkerSid.toNat ≤ 2 ^ 62 + d'.nextWorkerId := by
  obtain ⟨k, hk, hsid⟩ := h
  obtain ⟨-, hle⟩ := hd.sid
  have hnat : d'.nextWorkerSid.toNat = d.nextWorkerSid.toNat + k := by
    rw [hsid]
    exact toNat_add_of_lt (by omega)
  omega

/-- The sessions stay whose they were, whatever is minted. -/
theorem Seated.of_prev (hd : d.Seated) (hsid : SidsUsed d d') (hids : d'.nextWorkerId ≤ 2 ^ 62)
    (hprev : ∀ id wk', d'.workers.get? id = some wk' →
      ∃ wk, d.workers.get? id = some wk ∧ wk'.session = wk.session) : d'.Seated := by
  obtain ⟨hle, hbound⟩ := hd.sid_of_used hsid hids
  refine ⟨fun id wk' hget => ?_, fun id wk' hget => ?_, hd.apart.of_prev hprev, hd.sid.1.trans hle,
    hbound⟩ <;> obtain ⟨wk, hget, hsession⟩ := hprev id wk' hget <;> rw [hsession]
  · exact hd.range id wk hget
  · exact Nat.lt_of_lt_of_le (hd.below id wk hget) hle

/-- The worker that was minted, or one that was there. -/
theorem MintsOne.prev {b : BatchMeta} {items : List MintItem} {yolo : Bool} {item : MintItem}
    (h : MintsOne cfg w i d₀ d d' b items yolo item) {wk' : Worker}
    (hget : d'.workers.get? id = some wk') : id = d.nextWorkerId ∧ wk' = mintedWorker cfg w
      d.nextWorkerId d₀.nextBatchId b.parent d.nextWorkerSid item.prompt item.model yolo item.held
        item.ceiling ∨ id ≠ d.nextWorkerId ∧ d.workers.get? id = some wk' := by
  rw [h.workers, Table.get?_insert] at hget
  split at hget
  · rename_i hid
    exact Or.inl ⟨hid, (Option.some.inj hget).symm⟩
  · rename_i hid
    exact Or.inr ⟨hid, hget⟩

theorem Seated.of_minted {b : BatchMeta} {items : List MintItem} {yolo : Bool} {item : MintItem}
    (hd : d.Seated) (h : MintsOne cfg w i d₀ d d' b items yolo item)
    (hids : d'.nextWorkerId ≤ 2 ^ 62) : d'.Seated := by
  have hsid : SidsUsed d d' := ⟨1, h.nextId.ge, h.nextSid⟩
  obtain ⟨hle, hbound⟩ := hd.sid_of_used hsid hids
  have hnext : d'.nextWorkerSid.toNat = d.nextWorkerSid.toNat + 1 := by
    rw [h.nextSid]
    have hid := h.nextId
    have hd' := hd.sid.2
    exact toNat_add_of_lt (k := 1) (by omega)
  refine ⟨fun id wk' hget => ?_, fun id wk' hget => ?_, fun id id' wk₁ wk₂ hget₁ hget₂ heq => ?_,
    hd.sid.1.trans hle, hbound⟩
  · rcases h.prev hget with ⟨rfl, rfl⟩ | ⟨-, hget⟩
    · exact ⟨hd.sid.1, hd.sid.2, Nat.lt_of_lt_of_le (Nat.lt_succ_self _) (h.nextId.ge.trans hids)⟩
    · exact hd.range id wk' hget
  · rcases h.prev hget with ⟨rfl, rfl⟩ | ⟨-, hget⟩
    · exact hnext.ge
    · exact Nat.lt_of_lt_of_le (hd.below id wk' hget) hle
  · rcases h.prev hget₁ with ⟨rfl, rfl⟩ | ⟨-, hget₁⟩ <;>
      rcases h.prev hget₂ with ⟨rfl, rfl⟩ | ⟨-, hget₂⟩
    · rfl
    · have hlt := hd.below _ _ hget₂
      rw [← heq] at hlt
      exact absurd hlt (Nat.lt_irrefl _)
    · have hlt := hd.below _ _ hget₁
      rw [heq] at hlt
      exact absurd hlt (Nat.lt_irrefl _)
    · exact hd.apart id id' wk₁ wk₂ hget₁ hget₂ heq

theorem Seated.isWorkerSession (hd : d.Seated) (hget : d.workers.get? id = some wk) :
    isWorkerSession wk.session = true := by
  obtain ⟨hlo, hhi, hid⟩ := hd.range id wk hget
  have hbase : workerSessionBase ≤ wk.session := UInt64.le_iff_toNat_le.mpr hlo
  have hspawn : wk.session < spawnSessionBase := by
    refine UInt64.lt_iff_toNat_lt.mpr (Nat.lt_of_le_of_lt hhi ?_)
    exact Nat.add_lt_add_left hid (2 ^ 62)
  simp [Fabrica.isWorkerSession, hbase, hspawn]

theorem Act.seated (h : Act cfg w i d₀ d d') (hd : d.Seated) (hids : d'.nextWorkerId ≤ 2 ^ 62) :
    d'.Seated := by
  rcases h.arms with harms | ⟨b, items, yolo, item, hmint⟩
  · refine hd.of_prev h.posts.sids hids fun id wk' hget => ?_
    obtain ⟨wk, hget, hkin⟩ := prev_of_arming harms hget
    exact ⟨wk, hget, hkin.session⟩
  · exact hd.of_minted hmint hids

/-! ### Pins -/

/-- A resident worker in this session has this model. -/
def PinnedBy (d : Driver) (s : SessionId) (m : String) : Prop :=
  ∃ id wk, d.workers.get? id = some wk ∧ wk.session = s ∧ wk.model = some m ∧ wk.resident = true

/-- The pins are the models of the resident workers. -/
def Pinned (d : Driver) : Prop := ∀ s m, d.models.get? s = some m ↔ d.PinnedBy s m

theorem pinnedBy_session (hd : d.Apart) (hget : d.workers.get? id = some wk) (m : String) :
    d.PinnedBy wk.session m ↔ wk.model = some m ∧ wk.resident = true := by
  constructor
  · rintro ⟨id', wk', hget', hsession, h⟩
    obtain rfl := hd id' id wk' wk hget' hget hsession
    obtain rfl : wk' = wk := Option.some.inj (hget'.symm.trans hget)
    exact h
  · exact fun h => ⟨id, wk, hget, rfl, h⟩

theorem pinnedBy_of_ne {wk' : Worker} (hget : d.workers.get? id = some wk)
    (hworkers : d'.workers = d.workers.modify id fun _ => wk') (hsession : wk'.session = wk.session)
    {s : SessionId} (hs : s ≠ wk.session) (m : String) : d'.PinnedBy s m ↔ d.PinnedBy s m := by
  constructor <;> rintro ⟨id', wk₁, hget', hs', h⟩
  · by_cases hid : id' = id
    · subst hid
      obtain rfl : wk' = wk₁ := Option.some.inj ((get?_modified hget hworkers).symm.trans hget')
      exact absurd (hs'.symm.trans hsession) hs
    · rw [hworkers, Table.get?_modify_of_ne hid] at hget'
      exact ⟨id', wk₁, hget', hs', h⟩
  · by_cases hid : id' = id
    · subst hid
      obtain rfl : wk₁ = wk := Option.some.inj (hget'.symm.trans hget)
      exact absurd hs'.symm hs
    · exact ⟨id', wk₁, by rw [hworkers, Table.get?_modify_of_ne hid, hget'], hs', h⟩

/-- One worker changes, and the pins change with it in its session and nowhere else. -/
theorem Pinned.of_modify {wk' : Worker} (hp : d.Pinned) (hd' : d'.Apart)
    (hget : d.workers.get? id = some wk) (hworkers : d'.workers = d.workers.modify id fun _ => wk')
    (hkin : Kin wk wk')
    (hthere : ∀ m, d'.models.get? wk.session = some m ↔ wk.model = some m ∧ wk'.resident = true)
    (helse : ∀ s, s ≠ wk.session → d'.models.get? s = d.models.get? s) : d'.Pinned := by
  intro s m
  by_cases hs : s = wk.session
  · subst hs
    rw [hthere, ← hkin.session, pinnedBy_session hd' (get?_modified hget hworkers), hkin.model]
  · rw [helse s hs, pinnedBy_of_ne hget hworkers hkin.session hs]
    exact hp s m

theorem Pinned.of_same (hp : d.Pinned) (hworkers : d'.workers = d.workers)
    (hmodels : d'.models = d.models) : d'.Pinned := by
  intro s m
  rw [hmodels, hp s m, PinnedBy, PinnedBy, hworkers]

/-- The model of a worker is pinned in its session. -/
theorem get?_armed {models : Table SessionId String} {m : String} :
    (wk.model.elim models fun m => models.insert wk.session m).get? wk.session = some m ↔
      wk.model = some m ∨ wk.model = none ∧ models.get? wk.session = some m := by
  cases wk.model with
  | none => simp
  | some m' => simp [Table.get?_insert]

theorem get?_armed_of_ne {models : Table SessionId String} {s : SessionId} (hs : s ≠ wk.session) :
    (wk.model.elim models fun m => models.insert wk.session m).get? s = models.get? s := by
  cases wk.model with
  | none => rfl
  | some m => exact (Table.get?_insert ..).trans (if_neg hs)

/-- **What an act preserves of the pins.** -/
theorem Pinned.of_arms (hp : d.Pinned) (hd : d.Apart) (h : Arms cfg w i d d') : d'.Pinned := by
  have hd' : d'.Apart := hd.of_prev fun id wk' hget => by
    obtain ⟨wk, hget, hkin⟩ := h.prev hget
    exact ⟨wk, hget, hkin.session⟩
  have hpin {id : ℕ} {wk : Worker} (hget : d.workers.get? id = some wk) (m : String) :
      d.models.get? wk.session = some m ↔ wk.model = some m ∧ wk.resident = true :=
    (hp wk.session m).trans (pinnedBy_session hd hget m)
  have of_armed {id : ℕ} {wk wk' : Worker} (hget : d.workers.get? id = some wk)
      (hworkers : d'.workers = d.workers.modify id fun _ => wk') (hkin : Kin wk wk')
      (hresident : wk'.resident = true)
      (hmodels : d'.models = wk.model.elim d.models fun m => d.models.insert wk.session m) :
      d'.Pinned := by
    refine hp.of_modify hd' hget hworkers hkin (fun m => ?_) fun s hs => ?_
    · rw [hmodels, get?_armed, hpin hget]
      constructor
      · rintro (hm | ⟨hnone, hm, -⟩)
        · exact ⟨hm, hresident⟩
        · exact ⟨hm, hresident⟩
      · exact fun hm => Or.inl hm.1
    · rw [hmodels, get?_armed_of_ne hs]
  cases h with
  | still hworkers hyolo hmodels => exact hp.of_same hworkers hmodels
  | stays hget hworkers hkin hresident hyolo hmodels =>
    refine hp.of_modify hd' hget hworkers hkin (fun m => ?_) fun s hs => by rw [hmodels]
    rw [hmodels, hpin hget, hresident]
  | rests hget hworkers hkin hresident hyolo hmodels =>
    refine hp.of_modify hd' hget hworkers hkin (fun m => ?_) fun s hs => ?_
    · rw [hmodels, Table.get?_erase, hresident]
      simp
    · rw [hmodels, Table.get?_erase, if_neg hs]
  | wakes hget hworkers hkin hresident hyolo hmodels =>
    exact of_armed hget hworkers hkin hresident hmodels
  | admission hget hqueued hworkers hyolo hmodels horder =>
    exact of_armed hget hworkers ⟨rfl, rfl, rfl, rfl, rfl, fun _ => hqueued⟩ rfl hmodels
  | armed hi hworkers hyolo hmodels => exact hp.of_same hworkers hmodels
  | disarmed hworkers hyolo hmodels => exact hp.of_same hworkers hmodels

theorem Pinned.of_minted {b : BatchMeta} {items : List MintItem} {yolo : Bool} {item : MintItem}
    (hp : d.Pinned) (hd : d.Fresh) (h : MintsOne cfg w i d₀ d d' b items yolo item) :
    d'.Pinned := by
  intro s m
  rw [h.models, hp s m]
  constructor <;> rintro ⟨id, wk, hget, hrest⟩
  · have hid : id ≠ d.nextWorkerId := (hd.worker _ (Table.mem_of_get? hget)).ne
    exact ⟨id, wk, by rw [h.workers, Table.get?_insert, if_neg hid, hget], hrest⟩
  · rcases h.prev hget with ⟨-, rfl⟩ | ⟨-, hget⟩
    · simp [Worker.resident, mintedWorker] at hrest
    · exact ⟨id, wk, hget, hrest⟩

theorem Act.pinned (h : Act cfg w i d₀ d d') (hp : d.Pinned) (hd : d.Apart) (hfresh : d.Fresh) :
    d'.Pinned := by
  rcases h.arms with harms | ⟨b, items, yolo, item, hmint⟩
  · have hboth : d'.Apart ∧ d'.Pinned := by
      clear h
      induction harms with
      | refl => exact ⟨hd, hp⟩
      | tail _ hlast ih =>
        refine ⟨ih.1.of_prev fun id wk' hget => ?_, ih.2.of_arms ih.1 hlast.1⟩
        obtain ⟨wk, hget, hkin⟩ := hlast.1.prev hget
        exact ⟨wk, hget, hkin.session⟩
    exact hboth.2
  · exact hp.of_minted hfresh hmint

/-! ### Approval -/

/-- A worker that is resident has not been said to rest. -/
theorem Honest.resides {E : List Effect} (h : Honest d d') (hres : Resides id (E ++ d.out))
    (hget : d'.workers.get? id = some wk) (hresident : wk.resident = true) :
    Resides id (E ++ d'.out) := by
  obtain ⟨effs, hout, hhonest⟩ := h
  rw [hout, ← List.append_assoc]
  refine hres.append fun e he => ?_
  by_contra hrests
  obtain ⟨wk', hget', hrest⟩ := hhonest e he id (by simpa using hrests)
  obtain rfl : wk = wk' := Option.some.inj (hget.symm.trans hget')
  rw [hresident] at hrest
  cases hrest

/-- Who is vetted: the workers that wait with `yolo`, and those whose sessions are in the set.
The latter are resident, and have been since their admission. -/
structure ArmedBy (V : ℕ → ℕ → SessionId → Prop) (E : List Effect) (d : Driver) : Prop where
  waiting : ∀ id wk, d.workers.get? id = some wk → wk.state = .queued → wk.yolo = true →
    V id wk.batch wk.parent
  armed : ∀ s ∈ d.yolo, isWorkerSession s = true → ∃ id wk, d.workers.get? id = some wk ∧
    wk.session = s ∧ wk.resident = true ∧ Resides id (E ++ d.out) ∧ V id wk.batch wk.parent

variable {V V' : ℕ → ℕ → SessionId → Prop} {E : List Effect}

theorem ArmedBy.mono (h : ArmedBy V E d) (hV : ∀ id batch parent, V id batch parent →
    V' id batch parent) : ArmedBy V' E d := by
  refine ⟨fun id wk hget hqueued hyolo => hV _ _ _ (h.waiting id wk hget hqueued hyolo),
    fun s hs hworker => ?_⟩
  obtain ⟨id, wk, hget, hsession, hresident, hres, hv⟩ := h.armed s hs hworker
  exact ⟨id, wk, hget, hsession, hresident, hres, hV _ _ _ hv⟩

/-- **What an act preserves of the set.** -/
theorem ArmedBy.of_arming (h : ArmedBy V E d) (ha : Arming cfg w i d d')
    (hi : ∀ s, i = .goalArmed s → isWorkerSession s = false) : ArmedBy V E d' := by
  obtain ⟨harms, hhonest⟩ := ha
  have of_here {id : ℕ} {wk wk' : Worker} {s : SessionId} (hget : d'.workers.get? id = some wk')
      (hkin : Kin wk wk') (hsession : wk.session = s) (hresident : wk'.resident = true)
      (hres : Resides id (E ++ d.out)) (hv : V id wk.batch wk.parent) :
      ∃ id wk, d'.workers.get? id = some wk ∧ wk.session = s ∧ wk.resident = true ∧
        Resides id (E ++ d'.out) ∧ V id wk.batch wk.parent :=
    ⟨id, wk', hget, hkin.session.trans hsession, hresident,
      hhonest.resides hres hget hresident, hkin.batch ▸ hkin.parent ▸ hv⟩
  have of_old {s : SessionId} (hs : s ∈ d.yolo) (hworker : isWorkerSession s = true)
      (hstays : ∀ id wk, d.workers.get? id = some wk → wk.session = s → wk.resident = true →
        ∃ wk', d'.workers.get? id = some wk' ∧ Kin wk wk' ∧ wk'.resident = true) :
      ∃ id wk, d'.workers.get? id = some wk ∧ wk.session = s ∧ wk.resident = true ∧
        Resides id (E ++ d'.out) ∧ V id wk.batch wk.parent := by
    obtain ⟨id, wk, hget, hsession, hresident, hres, hv⟩ := h.armed s hs hworker
    obtain ⟨wk', hget', hkin, hresident'⟩ := hstays id wk hget hsession hresident
    exact of_here hget' hkin hsession hresident' hres hv
  have of_same (hworkers : d'.workers = d.workers) {s : SessionId} (hs : s ∈ d.yolo)
      (hworker : isWorkerSession s = true) :=
    of_old hs hworker fun id wk hget _ hresident => ⟨wk, hworkers ▸ hget, .refl wk, hresident⟩
  have of_modify {id : ℕ} {wk wk' : Worker} (hget : d.workers.get? id = some wk)
      (hworkers : d'.workers = d.workers.modify id fun _ => wk') (hkin : Kin wk wk') {s : SessionId}
      (hs : s ∈ d.yolo) (hworker : isWorkerSession s = true)
      (hresident : wk.session = s → wk.resident = true → wk'.resident = true) :=
    of_old hs hworker fun id₁ wk₁ hget₁ hsession hresident₁ => by
      by_cases hid : id₁ = id
      · subst hid
        obtain rfl : wk₁ = wk := Option.some.inj (hget₁.symm.trans hget)
        exact ⟨wk', get?_modified hget hworkers, hkin, hresident hsession hresident₁⟩
      · exact ⟨wk₁, by rw [hworkers, Table.get?_modify_of_ne hid, hget₁], .refl wk₁, hresident₁⟩
  refine ⟨fun id wk' hget' hqueued hyolo => ?_, fun s hs hworker => ?_⟩
  · obtain ⟨wk, hget, hkin⟩ := harms.prev hget'
    rw [hkin.batch, hkin.parent]
    exact h.waiting id wk hget (hkin.queued hqueued) (hkin.yolo ▸ hyolo)
  · cases harms with
    | still hworkers hyolo hmodels => exact of_same hworkers (hyolo ▸ hs) hworker
    | stays hget hworkers hkin hresident hyolo hmodels =>
      exact of_modify hget hworkers hkin (hyolo ▸ hs) hworker fun _ h => hresident.trans h
    | rests hget hworkers hkin hresident hyolo hmodels =>
      rw [hyolo] at hs
      obtain ⟨hne, hs⟩ := Finset.mem_erase.mp hs
      exact of_modify hget hworkers hkin hs hworker fun hsession _ => absurd hsession.symm hne
    | wakes hget hworkers hkin hresident hyolo hmodels =>
      exact of_modify hget hworkers hkin (hyolo ▸ hs) hworker fun _ _ => hresident
    | admission hget hqueued hworkers hyolo hmodels horder =>
      rename_i id wk
      have hkin : Kin wk (admitted cfg w id wk) := ⟨rfl, rfl, rfl, rfl, rfl, fun _ => hqueued⟩
      have hold (hs : s ∈ d.yolo) := of_modify hget hworkers hkin hs hworker fun _ _ => rfl
      cases hinherits : wk.yolo with
      | false => exact hold (by simpa [hyolo, hinherits] using hs)
      | true =>
        rw [hyolo, if_pos hinherits] at hs
        rcases Finset.mem_insert.mp hs with rfl | hs
        · -- admitted just now: its order is the last thing that was done for it
          obtain ⟨effs, hout, hresides⟩ := horder
          refine ⟨id, _, get?_modified hget hworkers, rfl, rfl, ?_, h.waiting id wk hget hqueued
            hinherits⟩
          rw [hout, ← List.append_assoc]
          exact hresides.after _
        · exact hold hs
    | armed hgoal hworkers hyolo hmodels =>
      rw [hyolo] at hs
      rcases Finset.mem_insert.mp hs with rfl | hs
      · rw [hi s hgoal] at hworker
        cases hworker
      · exact of_same hworkers hs hworker
    | disarmed hworkers hyolo hmodels =>
      rw [hyolo] at hs
      exact of_same hworkers (Finset.mem_erase.mp hs).2 hworker

theorem ArmedBy.of_minted {b : BatchMeta} {items : List MintItem} {yolo : Bool} {item : MintItem}
    (h : ArmedBy V E d) (hd : d.Fresh) (hm : MintsOne cfg w i d₀ d d' b items yolo item)
    (hv : yolo = true → V d.nextWorkerId d₀.nextBatchId b.parent) : ArmedBy V E d' := by
  refine ⟨fun id wk hget hqueued hinherits => ?_, fun s hs hworker => ?_⟩
  · rcases hm.prev hget with ⟨rfl, rfl⟩ | ⟨-, hget⟩
    · exact hv hinherits
    · exact h.waiting id wk hget hqueued hinherits
  · rw [hm.yolo] at hs
    obtain ⟨id, wk, hget, hrest⟩ := h.armed s hs hworker
    have hid : id ≠ d.nextWorkerId := (hd.worker _ (Table.mem_of_get? hget)).ne
    exact ⟨id, wk, by rw [hm.workers, Table.get?_insert, if_neg hid, hget], hm.out ▸ hrest⟩

theorem ArmedBy.of_armings (h : ArmedBy V E d) (ha : Relation.ReflTransGen (Arming cfg w i) d d')
    (hi : ∀ s, i = .goalArmed s → isWorkerSession s = false) : ArmedBy V E d' := by
  induction ha with
  | refl => exact h
  | tail _ hlast ih => exact ih.of_arming hlast hi

/-! ### Vetting -/

/-- Who is vetted, when `G` says which batches inherited, and from whom: a worker here, of a
batch that was fanned out here. -/
structure Vetted (G : ℕ → SessionId → Prop) (d : Driver) (id batch : ℕ) (parent : SessionId) :
    Prop where
  granted : G batch parent
  opened : batch < d.nextBatchId
  home : ∀ b, d.batches.get? batch = some b → b.origin = none
  minted : id < d.nextWorkerId
  row : d.remotes.get? id = none

/-- The batch that a fan-out opens has no origin. -/
def OpensHome (i : Input) (d₀ d : Driver) : Prop :=
  (∃ session call args, i = .request session call "task_fanout" args) →
    ∀ b, d.batches.get? d₀.nextBatchId = some b → b.origin = none

variable {G : ℕ → SessionId → Prop}

theorem Mints.origin {b : BatchMeta} {items : List MintItem} {yolo : Bool}
    (h : Mints cfg w i d₀ b items yolo)
    (hi : ∃ session call args, i = .request session call "task_fanout" args) : b.origin = none := by
  obtain ⟨session, call, args, rfl⟩ := hi
  cases h with
  | fan hi hplan => rfl
  | host hi => cases hi

theorem get?_reported {batch batch' : ℕ} {t : Batches} {b : BatchMeta}
    (h : (t.modify batch fun b => { b with reported := true, inlineAck := none }).get? batch' =
      some b) : ∃ b', t.get? batch' = some b' ∧ b.origin = b'.origin := by
  rw [Table.get?_modify] at h
  split at h
  · obtain ⟨b', hget, rfl⟩ := Option.map_eq_some_iff.mp h
    exact ⟨b', hget, rfl⟩
  · exact ⟨b, h, rfl⟩

theorem Act.opensHome (h : Act cfg w i d₀ d d') (hd : OpensHome i d₀ d) : OpensHome i d₀ d' := by
  intro hi b hget
  cases h.posts.batches with
  | same h => exact hd hi b (h ▸ hget)
  | report h =>
    obtain ⟨b', hget', horigin⟩ := get?_reported (h ▸ hget)
    exact horigin.trans (hd hi b' hget')
  | opened hm heq h hnext =>
    rw [h, ← heq, Table.get?_insert, if_pos rfl] at hget
    obtain rfl := Option.some.inj hget
    exact hm.origin hi

theorem Vetted.of_act {batch : ℕ} {parent : SessionId} (hv : Vetted G d id batch parent)
    (h : Act cfg w i d₀ d d') : Vetted G d' id batch parent := by
  obtain ⟨hworker, hbatch⟩ := h.posts.counters
  refine ⟨hv.granted, Nat.lt_of_lt_of_le hv.opened hbatch, fun b hget => ?_,
    Nat.lt_of_lt_of_le hv.minted hworker, ?_⟩
  · cases h.posts.batches with
    | same h => exact hv.home b (h ▸ hget)
    | report h =>
      obtain ⟨b', hget', horigin⟩ := get?_reported (h ▸ hget)
      exact horigin.trans (hv.home b' hget')
    | opened hm heq h hnext =>
      rw [h, Table.get?_insert, if_neg hv.opened.ne] at hget
      exact hv.home b hget
  · cases h.posts.rows with
    | same h => rw [h, hv.row]
    | row hget h =>
      rename_i id' r r'
      rw [h, Table.get?_modify_of_ne, hv.row]
      rintro rfl
      rw [hv.row] at hget
      cases hget
    | minted h hnext => rw [h, Table.get?_insert, if_neg hv.minted.ne, hv.row]

/-- **What an act preserves of the set**, whatever it does. -/
theorem Act.armedBy (h : Act cfg w i d₀ d d') (ha : ArmedBy (Vetted G d) E d) (hd : d.Fresh)
    (hhome : OpensHome i d₀ d) (hi : ∀ s, i = .goalArmed s → isWorkerSession s = false)
    (hgrant : ∀ session call args, i = .request session call "task_fanout" args →
      strField args "yolo" = some "inherit" → session ∈ d₀.yolo → G d₀.nextBatchId session) :
    ArmedBy (Vetted G d') E d' := by
  have hmono : ArmedBy (Vetted G d') E d := ha.mono fun id batch parent hv => hv.of_act h
  rcases h.arms with harms | ⟨b, items, yolo, item, hmint⟩
  · exact hmono.of_armings harms hi
  · refine hmono.of_minted hd hmint fun hyolo => ?_
    have hbatches : d'.batches = d.batches := congrArg Ledger.batches hmint.ledger
    have hremotes : d'.remotes = d.remotes := congrArg Ledger.remotes hmint.ledger
    have hnext : d'.nextBatchId = d.nextBatchId := congrArg Ledger.nextBatchId hmint.ledger
    cases hmint.mints with
    | fan hreq hplan =>
      obtain ⟨hinherit, hmem⟩ : strField _ "yolo" = some "inherit" ∧ _ := by simpa using hyolo
      refine ⟨hgrant _ _ _ hreq hinherit hmem, ?_, fun b hget => ?_, ?_, ?_⟩
      · exact Nat.lt_of_lt_of_le hmint.opened hnext.ge
      · exact hhome ⟨_, _, _, hreq⟩ b (hbatches ▸ hget)
      · rw [hmint.nextId]
        exact Nat.lt_succ_self _
      · rw [hremotes]
        exact Table.get?_eq_none_of_forall fun x hx => (hd.remote x hx).ne
    | host hreq => cases hyolo

/-! ### What is on the disk -/

/-- The row is that of a worker in the books, in its session. -/
def Booked (d : Driver) (pw : PersistedWorker) : Prop :=
  ∃ wk, d.workers.get? pw.id = some wk ∧ wk.session = pw.session

/-- The files have only workers that are in the books. -/
def Filed (d : Driver) (k : Disk) : Prop := ∀ pw ∈ k.workerRows, d.Booked pw

/-- A write of workers is one of workers that are in the books. -/
def Books (d : Driver) : Effect → Prop
  | .txn t true => t.version = workerTxnVersion ∧ ∀ pw ∈ t.workers, d.Booked pw
  | .workersFile rows true => ∀ pw ∈ rows, d.Booked pw
  | _ => True

theorem Booked.of_keeps (hkeeps : ∀ id wk, d.workers.get? id = some wk →
    ∃ wk', d'.workers.get? id = some wk' ∧ Same wk wk') {pw : PersistedWorker} (h : d.Booked pw) :
    d'.Booked pw := by
  obtain ⟨wk, hget, hsession⟩ := h
  obtain ⟨wk', hget', hsame⟩ := hkeeps _ wk hget
  exact ⟨wk', hget', hsame.session.trans hsession⟩

theorem Books.of_booked {e : Effect} (h : d.Books e) (hbooked : ∀ pw, d.Booked pw → d'.Booked pw) :
    d'.Books e := by
  unfold Books at h ⊢
  split
  · exact ⟨h.1, fun pw hpw => hbooked pw (h.2 pw hpw)⟩
  · exact fun pw hpw => hbooked pw (h pw hpw)
  · trivial

theorem books_of_inert {e : Effect} (h : e.inert = true) : d.Books e := by
  unfold Books
  split
  · cases h
  · cases h
  · trivial

theorem booked_of_snapshot {pw : PersistedWorker} (h : pw ∈ snapshotWorkers d.workers) :
    d.Booked pw := by
  obtain ⟨x, hx, rfl⟩ := List.mem_map.mp ((List.mem_insertionSort _).mp h)
  exact ⟨x.2, Table.mem_iff_get?.mp hx, rfl⟩

theorem books_saveWorkerState (d : Driver) (w : World) {e : Effect}
    (he : e ∈ (d.saveWorkerState w).out) : e ∈ d.out ∨ d.Books e := by
  have of_txn (seq : ℕ) (rows : List PersistedBatch) (ok : Bool) :
      d.Books (.txn ⟨workerTxnVersion, seq, snapshotWorkers d.workers, rows⟩ ok) := by
    cases ok with
    | false => trivial
    | true => exact ⟨rfl, fun pw => booked_of_snapshot⟩
  have of_mirror (ok : Bool) : d.Books (.workersFile (snapshotWorkers d.workers) ok) := by
    cases ok with
    | false => trivial
    | true => exact fun pw => booked_of_snapshot
  unfold saveWorkerState persistWorkerTxn at he
  extract_lets ok txn d₁ at he
  have hnew (he : e ∈ d₁.out) : e ∈ d.out ∨ d.Books e := by
    rcases List.mem_append.mp he with he | he
    · exact Or.inl he
    · obtain rfl := List.mem_singleton.mp he
      exact Or.inr (of_txn ..)
  split at he
  · rcases List.mem_append.mp he with he | he
    · rcases List.mem_append.mp he with he | he
      · exact hnew he
      · obtain rfl := List.mem_singleton.mp he
        exact Or.inr (of_mirror _)
    · obtain rfl := List.mem_singleton.mp he
      exact Or.inr trivial
  · exact hnew he

/-- **A move writes only workers that are in the books.** -/
theorem Move.books {c : Cause} (h : Move cfg w c d d') (hd : ∀ e ∈ d.out, d.Books e) :
    ∀ e ∈ d'.out, d'.Books e := by
  have hold {e : Effect} (he : e ∈ d.out) : d'.Books e :=
    (hd e he).of_booked fun pw hpw => hpw.of_keeps fun id wk hget => h.keeps hget
  have of_effs {effs : List Effect} (hout : d'.out = d.out ++ effs)
      (heffs : ∀ e ∈ effs, d'.Books e) : ∀ e ∈ d'.out, d'.Books e := by
    intro e he
    rw [hout] at he
    exact (List.mem_append.mp he).elim hold (heffs e)
  have of_save {d₁ : Driver} (hout : d₁.out = d.out) (heq : d' = d₁.saveWorkerState w) :
      ∀ e ∈ d'.out, d'.Books e := by
    intro e he
    have hworkers : d'.workers = d₁.workers := by
      rw [heq]
      exact congrArg Core.workers (core_saveWorkerState d₁ w)
    rcases books_saveWorkerState d₁ w (heq ▸ he) with he | hbooks
    · exact hold (hout ▸ he)
    · refine hbooks.of_booked fun pw hpw => ?_
      obtain ⟨wk, hget, hsession⟩ := hpw
      exact ⟨wk, by rw [hworkers, hget], hsession⟩
  cases h with
  | aside h =>
    obtain ⟨effs, hout, hplain⟩ := h.out
    exact of_effs hout fun e he => books_of_inert (inert_of_plain (hplain e he))
  | admission hc hcap hnext hget =>
    obtain ⟨-, effs, hout, hplain⟩ := admitOne_spec d cfg w _ _
    refine of_effs hout fun e he => ?_
    rcases List.mem_append.mp he with he | he
    · exact books_of_inert (inert_of_plain (hplain e he))
    · rcases List.mem_pair.mp he with rfl | rfl <;> trivial
  | life hget hlife hcore hout htrail =>
    exact of_effs hout fun e he => books_of_inert (htrail.inert e he)
  | card hget => exact of_effs rfl (by simp [Books])
  | remoteCard hget => exact of_effs rfl (by simp [Books])
  | remote hc hget hsame hcore hout heffs =>
    exact of_effs hout fun e he =>
      books_of_inert ((heffs e he).elim inert_of_plain inert_of_isCard)
  | fan hc hfan hok => exact of_save hfan.out rfl
  | lost hn hm hcore hout => exact of_effs hout (by simp [Books])
  | save => exact of_save rfl rfl
  | saveRemotes => exact of_effs rfl (by simp [Books])
  | report hc hget hdue =>
    obtain ⟨-, tail, hout, htail⟩ := @reportBatch_spec cfg d _ _ hget
    refine of_effs hout fun e he => ?_
    rcases List.mem_cons.mp he with rfl | he
    · trivial
    · rcases htail e he with hplain | ⟨session, call, d₁, rfl⟩
      · exact books_of_inert (inert_of_plain hplain)
      · trivial
  | fanned hlocal hremote => exact of_effs rfl (by simp [Books])
  | accepted hlocal => exact of_effs rfl (by simp [Books])

theorem workerRows_of_none {k : Disk} (h : k.loadWorkerTxn = none) :
    k.workerRows = k.workersFile := by
  rw [Disk.workerRows, h]
  rfl

theorem workerRows_of_some {k : Disk} {t : WorkerTxn} (h : k.loadWorkerTxn = some t) :
    k.workerRows = t.workers := by
  rw [Disk.workerRows, h]
  rfl

theorem Filed.apply {k : Disk} {e : Effect} (h : Filed d k) (he : d.Books e) :
    Filed d (k.apply e) := by
  cases e with
  | txn t ok =>
    cases ok with
    | false => exact h
    | true =>
      have hload : (k.apply (.txn t true)).loadWorkerTxn = some t := by
        simp [Disk.apply, Disk.loadWorkerTxn, he.1, workerTxnVersion]
      intro pw hpw
      rw [workerRows_of_some hload] at hpw
      exact he.2 pw hpw
  | workersFile rows ok =>
    cases ok with
    | false => exact h
    | true =>
      intro pw hpw
      have hsame : (k.apply (.workersFile rows true)).loadWorkerTxn = k.loadWorkerTxn := rfl
      cases hload : k.loadWorkerTxn with
      | none =>
        rw [workerRows_of_none (hsame.trans hload)] at hpw
        exact he pw hpw
      | some t =>
        rw [workerRows_of_some (hsame.trans hload)] at hpw
        exact h pw (by rwa [workerRows_of_some hload])
  | batchesFile rows ok => cases ok <;> exact h
  | remotesFile rows ok => cases ok <;> exact h
  | mandalasFile rows ok => cases ok <;> exact h
  | cellFile mandala c ok => cases ok <;> exact h
  | _ => exact h

theorem Filed.foldl {effs : List Effect} {k : Disk} (h : Filed d k)
    (heffs : ∀ e ∈ effs, d.Books e) :
    Filed d (effs.foldl Disk.apply k) := by
  induction effs generalizing k with
  | nil => exact h
  | cons e effs ih => exact ih (h.apply (heffs e (by simp))) fun e' he' => heffs e' (by simp [he'])

/-- The files after a handler, wherever it is cut off, have only workers that are in the books. -/
theorem Filed.react {k : Disk} (hd : d.Fresh) (h : Filed d k) (i : Input) {done : List Effect}
    (hdone : done ⊆ (d.react cfg w i).out) : Filed (d.react cfg w i) (done.foldl Disk.apply k) := by
  obtain ⟨⟨hkeeps, hbooks⟩, -⟩ := @react_induction cfg w d (fun d' =>
    (∀ id wk, d.workers.get? id = some wk → ∃ wk', d'.workers.get? id = some wk' ∧ Same wk wk') ∧
      ∀ e ∈ d'.out, d'.Books e) hd
    ⟨fun id wk hget => ⟨wk, hget, .refl wk⟩, by simp⟩ i fun c d₁ d₂ _ hmove _ hP => by
      refine ⟨fun id wk hget => ?_, hmove.books hP.2⟩
      obtain ⟨wk₁, hget₁, hsame₁⟩ := hP.1 id wk hget
      obtain ⟨wk₂, hget₂, hsame₂⟩ := hmove.keeps hget₁
      exact ⟨wk₂, hget₂, hsame₁.trans hsame₂⟩
  have hold : Filed (d.react cfg w i) k := fun pw hpw => (h pw hpw).of_keeps hkeeps
  exact hold.foldl fun e he => hbooks e (hdone he)

/-! ### Boots -/

theorem toNat_max (a b : SessionId) : (max a b).toNat = max a.toNat b.toNat := by
  change (if a ≤ b then b else a).toNat = _
  split
  · rename_i h
    exact (max_eq_right (UInt64.le_iff_toNat_le.mp h)).symm
  · rename_i h
    exact (max_eq_left (Nat.le_of_not_le fun hle => h (UInt64.le_iff_toNat_le.mpr hle))).symm

/-- What a boot makes of the counter of the sessions. -/
structure CountedFrom (sid : SessionId) (rows : List PersistedWorker) (d' : Driver) : Prop where
  start : sid.toNat ≤ d'.nextWorkerSid.toNat
  past : ∀ pw ∈ rows, (pw.session + 1).toNat ≤ d'.nextWorkerSid.toNat
  exact : d'.nextWorkerSid.toNat = sid.toNat ∨
    ∃ pw ∈ rows, d'.nextWorkerSid.toNat = (pw.session + 1).toNat

theorem countedFrom_hydrateWorkers (w : World) (rows : List PersistedWorker) (d : Driver) :
    CountedFrom d.nextWorkerSid rows (d.hydrateWorkers w rows) := by
  induction rows generalizing d with
  | nil => exact ⟨Nat.le_refl _, by simp, Or.inl rfl⟩
  | cons pw rows ih =>
    obtain ⟨hstart, hpast, hexact⟩ := ih { d with
      nextWorkerId := max d.nextWorkerId (pw.id + 1)
      nextBatchId := max d.nextBatchId (pw.batch + 1)
      nextWorkerSid := max d.nextWorkerSid (pw.session + 1)
      workers := d.workers.insert pw.id (pw.hydrate w.now) }
    rw [toNat_max] at hstart hexact
    refine ⟨(le_max_left ..).trans hstart, fun x hx => ?_, ?_⟩
    · rcases List.mem_cons.mp hx with rfl | hx
      · exact (le_max_right ..).trans hstart
      · exact hpast x hx
    · rcases hexact with hexact | ⟨x, hx, hexact⟩
      · rcases max_choice d.nextWorkerSid.toNat (pw.session + 1).toNat with hmax | hmax
        · exact Or.inl (hexact.trans hmax)
        · exact Or.inr ⟨pw, by simp, hexact.trans hmax⟩
      · exact Or.inr ⟨x, by simp [hx], hexact⟩

theorem proj_foldl {α β : Type*} (p : Driver → β) {f : Driver → α → Driver}
    (h : ∀ d a, p (f d a) = p d) (l : List α) (d : Driver) : p (l.foldl f d) = p d := by
  induction l generalizing d with
  | nil => rfl
  | cons a l ih => exact (ih _).trans (h d a)

theorem sid_hydrateBatches (d : Driver) (rows : List PersistedBatch) :
    (d.hydrateBatches rows).nextWorkerSid = d.nextWorkerSid := by
  unfold hydrateBatches
  refine proj_foldl nextWorkerSid ?_ rows d
  exact fun _ _ => rfl

theorem sid_emitReloadedWorkers (d : Driver) :
    d.emitReloadedWorkers.nextWorkerSid = d.nextWorkerSid :=
  congrArg Core.nextWorkerSid (restates_emitReloadedWorkers d).core

theorem countedFrom_loadBooks (w : World) (k : Disk) :
    CountedFrom workerSessionBase k.workerRows (loadBooks w k) := by
  unfold loadBooks
  cases hload : k.loadWorkerTxn with
  | some t =>
    have h := countedFrom_hydrateWorkers w t.workers { blank with txnSeq := t.seq }
    have hsid : ((({ blank with txnSeq := t.seq }.hydrateWorkers w t.workers).hydrateBatches
        t.batches).emitReloadedWorkers).nextWorkerSid = _ :=
      (sid_emitReloadedWorkers _).trans (sid_hydrateBatches ..)
    rw [workerRows_of_some hload]
    exact ⟨hsid ▸ h.start, hsid ▸ h.past, hsid ▸ h.exact⟩
  | none =>
    have h := countedFrom_hydrateWorkers w k.workersFile blank
    have hsid : ((blank.hydrateWorkers w k.workersFile).emitReloadedWorkers.hydrateBatches
        k.batchesFile).nextWorkerSid = _ :=
      (sid_hydrateBatches ..).trans (sid_emitReloadedWorkers _)
    rw [workerRows_of_none hload]
    exact ⟨hsid ▸ h.start, hsid ▸ h.past, hsid ▸ h.exact⟩

theorem sid_boot (cfg : Config) (w : World) (k : Disk) :
    (boot cfg w k).nextWorkerSid = (loadBooks w k).nextWorkerSid := by
  have hreconcile (d : Driver) : (d.reconcileBatches w).nextWorkerSid = d.nextWorkerSid := by
    refine proj_foldl nextWorkerSid (fun d wk => ?_) _ d
    unfold reconcileOne
    split <;> rfl
  have haside {d d' : Driver} (h : Aside d d') : d'.nextWorkerSid = d.nextWorkerSid :=
    congrArg Core.nextWorkerSid h.core
  have hremotes (d : Driver) (rows : List PersistedRemoteWorker) :
      (d.hydrateRemotes rows).nextWorkerSid = d.nextWorkerSid := by
    unfold hydrateRemotes
    refine proj_foldl nextWorkerSid ?_ rows d
    exact fun _ _ => rfl
  refine (haside (aside_resumePolls _)).trans ?_
  refine (congrArg Core.nextWorkerSid (restates_emitReloadedRemotes _).core).trans ?_
  exact (hremotes ..).trans ((haside (aside_reloadMandalas ..)).trans (hreconcile _))

/-- What the workers are armed with. -/
def arms (d : Driver) : Finset SessionId × Table SessionId String := (d.yolo, d.models)

/-- A boot arms nobody. -/
theorem arms_boot (cfg : Config) (w : World) (k : Disk) :
    (boot cfg w k).arms = (∅, Table.empty) := by
  have hworkers (d : Driver) (rows : List PersistedWorker) :
      (d.hydrateWorkers w rows).arms = d.arms := by
    unfold hydrateWorkers
    refine proj_foldl arms ?_ rows d
    exact fun _ _ => rfl
  have hbatches (d : Driver) (rows : List PersistedBatch) :
      (d.hydrateBatches rows).arms = d.arms := by
    unfold hydrateBatches
    refine proj_foldl arms ?_ rows d
    exact fun _ _ => rfl
  have hemit (d : Driver) : d.emitReloadedWorkers.arms = d.arms := by
    refine proj_foldl arms (fun d id => ?_) _ d
    cases d.workers.get? id <;> rfl
  have hload : (loadBooks w k).arms = (∅, Table.empty) := by
    unfold loadBooks
    split
    · exact (hemit _).trans ((hbatches ..).trans (hworkers ..))
    · exact (hbatches ..).trans ((hemit _).trans (hworkers ..))
  have hreconcile (d : Driver) : (d.reconcileBatches w).arms = d.arms := by
    refine proj_foldl arms (fun d wk => ?_) _ d
    unfold reconcileOne
    split <;> rfl
  have hcells (mandala : ℕ) (d : Driver) (c : CellRecord) :
      (reloadCell w mandala d c).arms = d.arms := by
    unfold reloadCell
    extract_lets d₁
    change d₁.arms = d.arms
    unfold d₁
    split <;> rfl
  have hmandalas (d : Driver) : (d.reloadMandalas w k).arms = d.arms := by
    unfold reloadMandalas
    extract_lets d₁
    refine proj_foldl arms (fun d id => ?_) _ d₁
    exact proj_foldl arms (hcells id) _ d
  have hremotes (d : Driver) (rows : List PersistedRemoteWorker) :
      (d.hydrateRemotes rows).arms = d.arms := by
    unfold hydrateRemotes
    refine proj_foldl arms ?_ rows d
    exact fun _ _ => rfl
  have hemitRows (d : Driver) : d.emitReloadedRemotes.arms = d.arms := by
    refine proj_foldl arms (fun d id => ?_) _ d
    cases d.remotes.get? id <;> rfl
  have hpolls (d : Driver) : (d.resumePolls cfg w).arms = d.arms := by
    unfold resumePolls
    refine proj_foldl arms (fun d x => ?_) _ d
    extract_lets unsettled target
    split <;> rfl
  exact (hpolls _).trans ((hemitRows _).trans ((hremotes ..).trans
    ((hmandalas _).trans ((hreconcile _).trans hload))))

/-- A boot from files that have only workers of the books finds their sessions apart. -/
theorem Seated.booted (hd : d.Seated) {k : Disk} (hk : Filed d k) (cfg : Config) (w : World) :
    (boot cfg w k).Seated ∧ Filed (boot cfg w k) k := by
  have hboot := Driver.booted cfg w k
  have hprev {id : ℕ} {wk : Worker} (hget : (boot cfg w k).workers.get? id = some wk) :
      ∃ pw ∈ k.workerRows, wk.session = pw.session ∧
        ∃ wk', d.workers.get? id = some wk' ∧ wk'.session = wk.session := by
    obtain ⟨pw, hpw, rfl, rfl⟩ := mem_of_loaded hboot.workers (Table.mem_of_get? hget)
    obtain ⟨wk', hget', hsession⟩ := hk pw hpw
    exact ⟨pw, hpw, rfl, wk', hget', hsession⟩
  have hfiled : Filed (boot cfg w k) k := by
    intro pw hpw
    have hthere : (boot cfg w k).workers.contains pw.id = true := by
      rw [hboot.workers]
      exact Table.contains_insertAll (Or.inl (List.mem_map.mpr
        ⟨_, List.mem_map.mpr ⟨pw, hpw, rfl⟩, rfl⟩))
    obtain ⟨wk, hget⟩ := Table.contains_iff.mp hthere
    obtain ⟨-, -, -, wk₁, hget₁, hsession₁⟩ := hprev hget
    obtain ⟨wk₂, hget₂, hsession₂⟩ := hk pw hpw
    obtain rfl : wk₁ = wk₂ := Option.some.inj (hget₁.symm.trans hget₂)
    exact ⟨wk, hget, hsession₁.symm.trans hsession₂⟩
  have hrow {pw : PersistedWorker} (hpw : pw ∈ k.workerRows) : 2 ^ 62 ≤ pw.session.toNat ∧
      pw.session.toNat ≤ 2 ^ 62 + pw.id ∧ (pw.session + 1).toNat = pw.session.toNat + 1 ∧
        pw.id < (boot cfg w k).nextWorkerId := by
    obtain ⟨wk, hget, hsession⟩ := hk pw hpw
    obtain ⟨hlo, hhi, hid⟩ := hsession ▸ hd.range _ wk hget
    obtain ⟨wk', hget', -⟩ := hfiled pw hpw
    exact ⟨hlo, hhi, toNat_add_of_lt (k := 1) (by omega),
      hboot.fresh.worker _ (Table.mem_of_get? hget')⟩
  obtain ⟨hstart, hpast, hexact⟩ := countedFrom_loadBooks w k
  rw [← sid_boot cfg w k] at hstart hpast hexact
  have hbase : workerSessionBase.toNat = 2 ^ 62 := rfl
  refine ⟨⟨fun id wk hget => ?_, fun id wk hget => ?_, fun id id' wk wk' hget hget' heq => ?_, ?_⟩,
    hfiled⟩
  · obtain ⟨-, -, -, wk', hget', hsession⟩ := hprev hget
    exact hsession ▸ hd.range id wk' hget'
  · obtain ⟨pw, hpw, hsession, -⟩ := hprev hget
    have hlt := hpast pw hpw
    rw [(hrow hpw).2.2.1] at hlt
    rw [hsession]
    exact hlt
  · obtain ⟨-, -, -, wk₁, hget₁, hsession₁⟩ := hprev hget
    obtain ⟨-, -, -, wk₂, hget₂, hsession₂⟩ := hprev hget'
    exact hd.apart id id' wk₁ wk₂ hget₁ hget₂ (hsession₁.trans (heq.trans hsession₂.symm))
  · refine ⟨hbase ▸ hstart, ?_⟩
    rcases hexact with hexact | ⟨pw, hpw, hexact⟩
    · rw [hexact, hbase]
      exact Nat.le_add_right ..
    · obtain ⟨-, hhi, hsucc, hid⟩ := hrow hpw
      rw [hexact, hsucc]
      omega

/-- After a boot nobody is armed, and nobody waits. -/
theorem armedBy_boot (cfg : Config) (w : World) (k : Disk) (V : ℕ → ℕ → SessionId → Prop)
    (E : List Effect) : ArmedBy V E { boot cfg w k with out := [] } := by
  have hnone : (boot cfg w k).yolo = ∅ := congrArg Prod.fst (arms_boot cfg w k)
  refine ⟨fun id wk hget hqueued => ?_, fun s hs => ?_⟩
  · rcases (of_booted (Driver.booted cfg w k) hget).1 with hparked | hterm
    · rw [hqueued] at hparked
      cases hparked
    · simp [Worker.isTerminal, hqueued, terminal] at hterm
  · change s ∈ (boot cfg w k).yolo at hs
    simp [hnone] at hs

theorem pinned_boot (cfg : Config) (w : World) (k : Disk) : (boot cfg w k).Pinned := by
  intro s m
  rw [show (boot cfg w k).models = Table.empty from congrArg Prod.snd (arms_boot cfg w k)]
  refine ⟨fun h => by simp at h, ?_⟩
  rintro ⟨id, wk, hget, -, -, hresident⟩
  rcases (of_booted (Driver.booted cfg w k) hget).1 with hparked | hterm
  · simp [Worker.resident, hparked] at hresident
  · cases hs : wk.state <;> simp_all [Worker.isTerminal, terminal, Worker.resident]

/-! ### A turn of the loop -/

theorem opensHome_refl (hd : d.Fresh) (i : Input) : OpensHome i d d := by
  intro _ b hget
  exact absurd (hd.batch _ (Table.mem_of_get? hget)) (Nat.lt_irrefl _)

/-- A goal is armed in no worker's session. -/
def Input.sparesWorkers : Input → Bool
  | .goalArmed session => !isWorkerSession session
  | _ => true

/-- **What a turn of the loop preserves of the set.** -/
theorem ArmedBy.react (hd : d.Fresh) (h : ArmedBy (Vetted G d) E { d with out := [] })
    (hi : i.sparesWorkers = true)
    (hgrant : ∀ session call args, i = .request session call "task_fanout" args →
      strField args "yolo" = some "inherit" → session ∈ d.yolo → G d.nextBatchId session) :
    ArmedBy (Vetted G (d.react cfg w i)) (E ++ (d.react cfg w i).out)
      { d.react cfg w i with out := [] } := by
  have hgoal (s : SessionId) (hs : i = .goalArmed s) : isWorkerSession s = false := by
    subst hs
    simpa [Input.sparesWorkers] using hi
  obtain ⟨-, -, hwaiting, harmed⟩ := acts_induction cfg w (P := fun d' =>
    d'.Fresh ∧ OpensHome i { d with out := [] } d' ∧ ArmedBy (Vetted G d') E d') hd
    ⟨hd.blankOut, opensHome_refl hd.blankOut i, h.mono fun id batch parent hv =>
      ⟨hv.granted, hv.opened, hv.home, hv.minted, hv.row⟩⟩ i
    fun d₁ d₂ _ hact hP => ⟨hact.fresh hP.1, hact.opensHome hP.2.1,
      hact.armedBy hP.2.2 hP.1 hP.2.1 hgoal hgrant⟩
  refine ⟨hwaiting, fun s hs hworker => ?_⟩
  obtain ⟨id, wk, hget, hsession, hresident, hres, hv⟩ := harmed s hs hworker
  exact ⟨id, wk, hget, hsession, hresident, by simpa using hres, hv⟩

/-- **What a turn of the loop preserves of sessions and pins**, as long as there are ids. -/
theorem Seated.react (hd : d.Fresh) (h : d.Seated) (hp : d.Pinned) (i : Input)
    (hids : (d.react cfg w i).nextWorkerId ≤ 2 ^ 62) :
    (d.react cfg w i).Seated ∧ (d.react cfg w i).Pinned := by
  obtain ⟨-, hlast⟩ := acts_induction cfg w (P := fun d' => d'.Fresh ∧
    (d'.nextWorkerId ≤ 2 ^ 62 → d'.Seated ∧ d'.Pinned)) hd
    ⟨hd.blankOut, fun _ => ⟨⟨h.range, h.below, h.apart, h.sid⟩, hp⟩⟩ i
    fun d₁ d₂ _ hact hP => by
      refine ⟨hact.fresh hP.1, fun hids => ?_⟩
      obtain ⟨hseated, hpinned⟩ := hP.2 (hact.posts.counters.1.trans hids)
      exact ⟨hact.seated hseated hids, hact.pinned hpinned hseated.apart hP.1⟩
  exact hlast hids

end Driver

/-! ### Runs -/

namespace Node

variable {cfg : Config}

/-- In the run, a session that was in the set fanned this batch out, and let it inherit. -/
def Granted (cfg : Config) (n₀ : Node) (es : List Happening) (batch : ℕ)
    (parent : SessionId) : Prop :=
  ∃ before w call args after,
    es = before ++ .handled w (.request parent call "task_fanout" args) :: after ∧
    strField args "yolo" = some "inherit" ∧
    parent ∈ (Run.final (step cfg) n₀ before).driver.yolo ∧
    (Run.final (step cfg) n₀ before).driver.nextBatchId = batch

/-- **Who inherits auto-approval.** A worker's session is in the set only while that worker has been
admitted and has not been parked nor ended since; a session in the set let its batch inherit, and
the worker is neither hosted for a peer nor a mirror row. -/
def Inherits (cfg : Config) (n₀ : Node) (es : List Happening) : Prop :=
  ∀ s ∈ (Run.final (step cfg) n₀ es).driver.yolo, isWorkerSession s = true →
    ∃ id wk, (Run.final (step cfg) n₀ es).driver.workers.get? id = some wk ∧ wk.session = s ∧
      wk.resident = true ∧ Resides id (effects (Run.log (step cfg) n₀ es)) ∧
      Granted cfg n₀ es wk.batch wk.parent ∧
      (∀ b, (Run.final (step cfg) n₀ es).driver.batches.get? wk.batch = some b → b.origin = none) ∧
      (Run.final (step cfg) n₀ es).driver.remotes.get? id = none

/-- No goal is armed in a worker's session. -/
def SparesWorkers : Happening → Prop
  | .handled _ i | .crashed _ i _ _ => i.sparesWorkers = true
  | .restarted _ => True

/-- The sessions of workers are a range of `2 ^ 62`, and it is not used up. -/
def HasIds (cfg : Config) (n : Node) : Happening → Prop
  | .handled w i | .crashed w i _ _ => (n.driver.react cfg w i).nextWorkerId ≤ 2 ^ 62
  | .restarted _ => True

theorem granted_concat {n₀ : Node} {es : List Happening} {batch : ℕ} {parent : SessionId}
    (h : Granted cfg n₀ es batch parent) (e : Happening) :
    Granted cfg n₀ (es ++ [e]) batch parent := by
  obtain ⟨before, w, call, args, after, rfl, hrest⟩ := h
  exact ⟨before, w, call, args, after ++ [e], by simp, hrest⟩

/-- The set, as a run preserves it. -/
structure ArmedAt (cfg : Config) (n₀ : Node) (es : List Happening) : Prop where
  fresh : (Run.final (step cfg) n₀ es).driver.Fresh
  armed : Driver.ArmedBy (Driver.Vetted (Granted cfg n₀ es) (Run.final (step cfg) n₀ es).driver)
    (effects (Run.log (step cfg) n₀ es)) { (Run.final (step cfg) n₀ es).driver with out := [] }

theorem ArmedAt.concat {n₀ : Node} {es : List Happening} (h : ArmedAt cfg n₀ es) {e : Happening}
    (he : SparesWorkers e) : ArmedAt cfg n₀ (es ++ [e]) := by
  have hfresh : ((Run.final (step cfg) n₀ es).step cfg e).1.driver.Fresh := fresh_step h.fresh e
  have hfinal :
      Run.final (step cfg) n₀ (es ++ [e]) = ((Run.final (step cfg) n₀ es).step cfg e).1 := by
    simp
  have heffects : effects (Run.log (step cfg) n₀ (es ++ [e])) =
      effects (Run.log (step cfg) n₀ es) ++ ((Run.final (step cfg) n₀ es).step cfg e).2 := by
    simp [effects]
  refine ⟨by rw [hfinal]; exact hfresh, ?_⟩
  rw [hfinal, heffects]
  cases e with
  | handled w i =>
    have hmono : Driver.ArmedBy (Driver.Vetted (Granted cfg n₀ (es ++ [.handled w i]))
        (Run.final (step cfg) n₀ es).driver) _ _ := h.armed.mono fun id batch parent hv =>
          ⟨granted_concat hv.granted _, hv.opened, hv.home, hv.minted, hv.row⟩
    refine hmono.react h.fresh he fun session call args hi hinherit hmem => ?_
    subst hi
    exact ⟨es, w, call, args, [], rfl, hinherit, hmem, rfl⟩
  | crashed w i effs bootWorld => exact Driver.armedBy_boot ..
  | restarted bootWorld => exact Driver.armedBy_boot ..

/-- Sessions, files and pins, as a run preserves them. -/
structure SeatedAt (n : Node) : Prop where
  fresh : n.driver.Fresh
  filed : n.driver.Filed n.disk
  seated : n.driver.Seated
  pinned : n.driver.Pinned

theorem SeatedAt.booted {d : Driver} {k : Disk} (hd : d.Seated) (hk : d.Filed k) (w : World) :
    SeatedAt (booted cfg w k).1 := by
  have hboot := Driver.booted cfg w k
  obtain ⟨hseated, hfiled⟩ := hd.booted hk cfg w
  refine ⟨hboot.fresh, hfiled.foldl fun e he => ?_, hseated, Driver.pinned_boot cfg w k⟩
  exact Driver.books_of_inert (hboot.out e he).inert

theorem SeatedAt.step {n : Node} (h : SeatedAt n) {e : Happening} (he : HasIds cfg n e) :
    SeatedAt (n.step cfg e).1 := by
  cases e with
  | handled w i =>
    obtain ⟨hseated, hpinned⟩ := h.seated.react h.fresh h.pinned i he
    exact ⟨Driver.fresh_react h.fresh i, h.filed.react h.fresh i fun _ => id, hseated, hpinned⟩
  | crashed w i effs bootWorld =>
    obtain ⟨hseated, -⟩ := h.seated.react h.fresh h.pinned i he
    exact .booted hseated (h.filed.react h.fresh i (List.take_subset ..)) bootWorld
  | restarted bootWorld => exact .booted h.seated h.filed bootWorld

theorem seatedAt_fresh (cfg : Config) (w : World) : SeatedAt (fresh cfg w) := by
  have hget (id : ℕ) : Driver.blank.workers.get? id = none := rfl
  refine .booted (d := Driver.blank) ⟨?_, ?_, ?_, by decide⟩
    (by simp [Driver.Filed, Disk.workerRows,
    Disk.loadWorkerTxn, Disk.blank]) w
  · intro id wk h
    simp [hget] at h
  · intro id wk h
    simp [hget] at h
  · intro id id' wk wk' h
    simp [hget] at h

theorem inherits_of_sparesWorkers (w : World) {es : List Happening}
    (h : ∀ e ∈ es, SparesWorkers e) : Inherits cfg (fresh cfg w) es := by
  suffices hat : ArmedAt cfg (fresh cfg w) es by
    intro s hs hworker
    obtain ⟨id, wk, hget, hsession, hresident, hres, hv⟩ := hat.armed.armed s hs hworker
    exact ⟨id, wk, hget, hsession, hresident, by simpa using hres, hv.granted, hv.home, hv.row⟩
  induction es using List.reverseRecOn with
  | nil =>
    exact ⟨(seatedAt_fresh cfg w).fresh, Driver.armedBy_boot ..⟩
  | append_singleton es e ih =>
    exact (ih fun e' he' => h e' (by simp [he'])).concat (h e (by simp))

/-- **Inherited approval never widens, and pins follow residency**, in every run of a new node in
which no goal is armed in a worker's session. A worker's session is in the set only if its batch
inherited from a session that was in the set, and only while the worker is resident; while the
sessions of workers are not used up, no worker hosted for a peer has a session in the set, and the
pins are the models of the resident workers. -/
theorem inherited_of_sparesWorkers (cfg : Config) (w : World) (es : List Happening)
    (h : ∀ e ∈ es, SparesWorkers e) :
    Inherits cfg (fresh cfg w) es ∧
    (Run.Always (step cfg) (fresh cfg w) (fun _ n e => HasIds cfg n e) es →
      (∀ id wk b, (Run.final (step cfg) (fresh cfg w) es).driver.workers.get? id = some wk →
        (Run.final (step cfg) (fresh cfg w) es).driver.batches.get? wk.batch = some b →
          b.origin ≠ none → wk.session ∉ (Run.final (step cfg) (fresh cfg w) es).driver.yolo) ∧
      (Run.final (step cfg) (fresh cfg w) es).driver.Pinned) := by
  have hinherits : Inherits cfg (fresh cfg w) es := inherits_of_sparesWorkers w h
  refine ⟨hinherits, fun hids => ?_⟩
  have hat : SeatedAt (Run.final (step cfg) (fresh cfg w) es) :=
    Run.invariant (I := fun _ n => SeatedAt n) (seatedAt_fresh cfg w)
      (fun _ _ _ hn he => hn.step he) hids
  refine ⟨fun id wk b hget hb horigin hmem => horigin ?_, hat.pinned⟩
  obtain ⟨id', wk', hget', hsession, -, -, -, hhome, -⟩ :=
    hinherits _ hmem (hat.seated.isWorkerSession hget)
  obtain rfl := hat.seated.apart id' id wk' wk hget' hget hsession
  obtain rfl : wk' = wk := Option.some.inj (hget'.symm.trans hget)
  exact hhome b hb

/-- A goal's session is armed, fans a task out on a model of its own and lets it inherit. -/
def armedFan : List Happening :=
  [.handled (.calm 0) (.goalArmed 7),
    .handled (.calm 1) (.request 7 1 "task_fanout" (.object [("tasks", .array [.object
      [("prompt", .string "one"), ("model", .string "small")]]), ("yolo", .string "inherit")]))]

/-- The worker is admitted at once: its session is in the set, and its model is pinned. -/
theorem inherited_armedFan :
    workerSessionBase ∈ (Run.final (step .small) (fresh .small (.calm 0)) armedFan).driver.yolo ∧
    (Run.final (step .small) (fresh .small (.calm 0)) armedFan).driver.models.get?
    workerSessionBase =
      some "small" ∧
    Inherits .small (fresh .small (.calm 0)) armedFan ∧
    (Run.final (step .small) (fresh .small (.calm 0)) armedFan).driver.Pinned := by
  obtain ⟨hinherits, hpinned⟩ := inherited_of_sparesWorkers .small (.calm 0) armedFan
    (by simp [armedFan, SparesWorkers, Driver.Input.sparesWorkers, isWorkerSession]; decide)
  have hids : Run.Always (step .small) (fresh .small (.calm 0)) (fun _ n e => HasIds .small n e)
      armedFan := by
    simp only [armedFan, Run.always_cons]
    refine ⟨?_, ?_, Run.Always.nil⟩ <;>
    · change (_ : ℕ) ≤ _
      decide +kernel
  exact ⟨by decide +kernel, by decide +kernel, hinherits, (hpinned hids).2⟩

end Node

end ApexOS.Fabrica

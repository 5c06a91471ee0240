import ApexOS.Agentd.Transcripts
import Mathlib.Data.List.Zip

/-!
# The index of the transcripts

The overlay of `agentd/crates/core/src/session_index.rs`, which `session_search` asks before it
scans files, next to the store it is derived from (`session_store.rs`). Each parsed line of a
transcript has a row, numbered from zero.

There are two writers. An append writes its line first and inserts its row afterwards, numbered one
above the highest row of the session. At boot every transcript is read, and its rows are replaced by
what was read, numbered by the lines. A file that is removed has its rows dropped afterwards; an
archived one keeps them.

Every one of these is two steps, and the steps come in any order here: which of the inserts under
way is next, and whether the database takes it, are inputs. What a message is searched by is an
arbitrary function of it.

## Main definitions

* `Indexed`, `step`: the files, the rows, and what is under way
* `Settled`, `Agrees`: nothing is under way; a session's rows are those of its transcript
* `Orderly`: what goes between the two steps of an operation does no harm

## Main results

* `Law.step`: the invariant
* `index_agrees_of_orderly`: in every orderly run, a settled index agrees
* `not_index_agrees`: an append under the walk, and two that overlap
-/

namespace ApexOS.Agentd.SessionIndex

open ApexOS.Fabrica (isWorkerSession)
open Transcripts

variable {μ ρ : Type*}

/-- Rows of workers and spawned sub-agents are never written. -/
def isIndexed (i : SessionId) : Bool := !isWorkerSession i && !Transcripts.isSpawnSession i

/-- The next `msg_index`: one above the highest. -/
def nextIndex (rows : List (ℕ × ρ)) : ℕ := ((rows.map Prod.fst).max?.map (· + 1)).getD 0

/-- What `catch_up_file` writes: a row for each message, numbered by their order. -/
def catchUpRows (searchable : μ → ρ) (messages : List μ) : List (ℕ × ρ) :=
  messages.zipIdx.map fun (m, k) => (k, searchable m)

/-- `catch_up_dir` on its way: the directory it is in, the entries to come once it was listed, and
the session whose file was read, with its new rows. -/
structure Walk (ρ : Type*) where
  archive : Bool
  todo : Option (List SessionId)
  loaded : Option (SessionId × List (ℕ × ρ))

/-- A session's share of the messages of all. -/
def ofSession (l : List (SessionId × μ)) (i : SessionId) : List μ :=
  (l.filter fun x => x.1 = i).map Prod.snd

/-- The store and its index. -/
structure Indexed (μ ρ : Type*) where
  store : Sessions μ
  /-- `session_fts`, by session, in the order of the inserts -/
  rows : SessionId → List (ℕ × ρ)
  /-- appends whose line is in the file and whose row is not inserted -/
  inserting : List (SessionId × μ)
  /-- removed files whose rows are still to be dropped -/
  removing : List SessionId
  walk : Option (Walk ρ)

/-- The daemon starts: on any files, with what an earlier one left in the index. -/
def boot (store : Sessions μ) (rows : SessionId → List (ℕ × ρ)) : Indexed μ ρ where
  store := { store with tombstones := [] }
  rows := rows
  inserting := []
  removing := []
  walk := some ⟨false, none, none⟩

/-- The steps of the operations. -/
inductive Event (μ : Type*)
  | append (i : SessionId) (m : μ) (fate : Fate)
  /-- one of the inserts under way -/
  | insert (k : ℕ) (ok : Bool)
  | tombstone (i : SessionId)
  | archive (i : SessionId) (dirOk ok : Bool)
  | remove (i : SessionId) (ok : Bool)
  /-- one of the drops under way -/
  | drop (k : ℕ) (ok : Bool)
  /-- the next step of the walk -/
  | catchUp (ok : Bool)

namespace Indexed

/-- An append gets its line into the file. -/
def writes (s : Indexed μ ρ) (i : SessionId) (fate : Fate) : Bool :=
  !Transcripts.isSpawnSession i && !s.store.isTombstoned i && decide (fate = .written)

/-- One step of `catch_up_dir`: the rows of the file that was read are replaced; or the directory is
listed, or the next file of it is read, or it is the next directory's turn. A file that cannot be
read and a transaction that fails end the whole walk. -/
def catchUp (searchable : μ → ρ) (s : Indexed μ ρ) (w : Walk ρ) (ok : Bool) : Indexed μ ρ :=
  match w.loaded with
  | some (i, rows) =>
    if ok then
      { s with rows := Function.update s.rows i rows, walk := some { w with loaded := none } }
    else { s with walk := none }
  | none =>
    match w.todo with
    | none =>
      let ids := if ok then (s.store.files ⟨w.archive, false⟩).keys else []
      { s with walk := some { w with todo := some ids } }
    | some (i :: rest) =>
      if isIndexed i then
        match s.store.file ⟨w.archive, false⟩ i with
        | some t =>
          if ok then
            let rows := catchUpRows searchable t.messages
            { s with walk := some { w with todo := some rest, loaded := some (i, rows) } }
          else { s with walk := none }
        | none => { s with walk := none }
      else { s with walk := some { w with todo := some rest } }
    | some [] =>
      if w.archive then { s with walk := none }
      else { s with walk := some ⟨true, none, none⟩ }

/-- One step. -/
def step (searchable : μ → ρ) (s : Indexed μ ρ) (e : Event μ) : Indexed μ ρ × Unit :=
  match e with
  | .append i m fate =>
    ({ s with
        store := s.store.append i ⟨0, m⟩ fate
        inserting := if s.writes i fate then s.inserting ++ [(i, m)] else s.inserting }, ())
  | .insert k ok =>
    match s.inserting[k]? with
    | some (i, m) =>
      ({ s with
          inserting := s.inserting.eraseIdx k
          rows := if isIndexed i && ok then
              Function.update s.rows i (s.rows i ++ [(nextIndex (s.rows i), searchable m)])
            else s.rows }, ())
    | none => (s, ())
  | .tombstone i => ({ s with store := s.store.tombstone i }, ())
  | .archive i dirOk ok => ({ s with store := (s.store.archiveFile i dirOk ok).1 }, ())
  | .remove i ok =>
    ({ s with
        store := (s.store.removeFile i ok).1
        removing := if (s.store.removeFile i ok).2 then s.removing ++ [i] else s.removing }, ())
  | .drop k ok =>
    match s.removing[k]? with
    | some i =>
      ({ s with
          removing := s.removing.eraseIdx k
          rows := if ok then Function.update s.rows i [] else s.rows }, ())
    | none => (s, ())
  | .catchUp ok =>
    match s.walk with
    | some w => (s.catchUp searchable w ok, ())
    | none => (s, ())

/-- The transcript of a session, live or archived. -/
def file (s : Indexed μ ρ) (archive : Bool) (i : SessionId) : Option (Transcript μ) :=
  s.store.file ⟨archive, false⟩ i

/-- No operation is under way. -/
def Settled (s : Indexed μ ρ) : Prop := s.inserting = [] ∧ s.removing = [] ∧ s.walk = none

/-- **The index agrees** with each transcript. -/
def Agrees (searchable : μ → ρ) (s : Indexed μ ρ) : Prop :=
  ∀ i, isIndexed i = true → ∀ archive t, s.file archive i = some t →
    s.rows i = catchUpRows searchable t.messages

/-- The messages of a session whose rows are still to be inserted, in the order of their lines. -/
def pending (s : Indexed μ ρ) (i : SessionId) : List μ := ofSession s.inserting i

/-- There is nothing of a session that an earlier transcript of its could have left. -/
structure Blank (s : Indexed μ ρ) (i : SessionId) : Prop where
  archived : s.file true i = none
  rows : s.rows i = []
  inserting : s.pending i = []
  removing : i ∉ s.removing
  walk : ∀ w ∈ s.walk, ∀ x ∈ w.loaded, x.1 ≠ i

/-- What keeps file and index together. -/
def Orderly (s : Indexed μ ρ) : Event μ → Prop
  | .append i _ fate => isIndexed i = true → s.store.isTombstoned i = false → fate ≠ .unopened →
    -- a whole line or nothing, on a line of its own; or a file, for a session of which nothing is left
    (fate = .nothing ∨ fate = .written) ∧
      match s.file false i with
      | some t => t.rest = none
      | none => s.Blank i
  | .insert k ok => ∀ x ∈ s.inserting[k]?, isIndexed x.1 = true →
    -- rows are inserted in the order of their lines
    ok = true ∧ ∀ y ∈ s.inserting.take k, y.1 ≠ x.1
  | .catchUp ok => ∀ w ∈ s.walk, ok = true ∧
    match w.loaded, w.todo with
    | some (i, rows), _ =>
      -- what was read, and what waits to be inserted, is all there is
      ∀ archive t, s.file archive i = some t →
        rows.length + (s.pending i).length = t.messages.length
    | none, some (i :: _) => isIndexed i = true → (s.file w.archive i).isSome = true
    | _, _ => True
  | _ => True

end Indexed

/-! ### Rows -/

theorem length_catchUpRows (searchable : μ → ρ) (messages : List μ) :
    (catchUpRows searchable messages).length = messages.length := by
  simp [catchUpRows]

theorem nextIndex_catchUpRows (searchable : μ → ρ) (messages : List μ) :
    nextIndex (catchUpRows searchable messages) = messages.length := by
  have hfst : (catchUpRows searchable messages).map Prod.fst = List.range messages.length := by
    rw [catchUpRows, List.map_map, List.range_eq_range']
    exact List.zipIdx_map_snd 0 messages
  rw [nextIndex, hfst]
  cases messages.length with
  | zero => rfl
  | succ n =>
    have hmax : (List.range (n + 1)).max? = some n := by
      rw [List.max?_eq_some_iff]
      refine ⟨List.mem_range.mpr (Nat.lt_succ_self n), fun b hb => ?_⟩
      exact Nat.le_of_lt_succ (List.mem_range.mp hb)
    rw [hmax]
    rfl

/-- The row that an insert adds is the one the file would give it. -/
theorem catchUpRows_concat (searchable : μ → ρ) (messages : List μ) (m : μ) :
    catchUpRows searchable (messages ++ [m]) = catchUpRows searchable messages ++
      [(nextIndex (catchUpRows searchable messages), searchable m)] := by
  rw [nextIndex_catchUpRows]
  simp [catchUpRows, List.zipIdx_append]

/-! ### One session -/

section Law

namespace Indexed

/-- What the walk has read of a session and not yet written. -/
def read (s : Indexed μ ρ) (i : SessionId) : Option (List (ℕ × ρ)) :=
  s.walk.bind fun w => (w.loaded.filter fun x => x.1 = i).map Prod.snd

/-- The walk is still to come to a file. -/
def Comes (s : Indexed μ ρ) (archive : Bool) (i : SessionId) : Prop :=
  ∃ w ∈ s.walk, if w.archive = archive then ∀ ids ∈ w.todo, i ∈ ids else archive = true

/-- What holds of a session between the steps. -/
structure Sound (searchable : μ → ρ) (s : Indexed μ ρ) (i : SessionId) : Prop where
  /-- it has one transcript -/
  one : (s.file true i).isSome = true → s.file false i = none
  /-- what waits is the end of it -/
  waits : ∀ archive t, s.file archive i = some t → s.pending i <:+ t.messages
  /-- the rest has its rows, or will get them -/
  agree : ∀ archive t, s.file archive i = some t →
    (s.read i).isSome = true ∨ s.Comes archive i ∨
      ∃ done, t.messages = done ++ s.pending i ∧ s.rows i = catchUpRows searchable done
  /-- what was read is the beginning of it -/
  loaded : ∀ rows ∈ s.read i, ∀ archive t, s.file archive i = some t →
    ∃ before, rows = catchUpRows searchable before ∧ before <+: t.messages
  removing : i ∈ s.removing → ∀ archive, s.file archive i = none

end Indexed

/-- **The invariant.** -/
def Law (searchable : μ → ρ) (s : Indexed μ ρ) : Prop :=
  ∀ i, isIndexed i = true → s.Sound searchable i

variable {searchable : μ → ρ} {s s' : Indexed μ ρ} {i j : SessionId}

/-- A step that is about something else. -/
theorem Indexed.Sound.congr (h : s.Sound searchable i)
    (hfile : ∀ archive, s'.file archive i = s.file archive i) (hrows : s'.rows i = s.rows i)
    (hpending : s'.pending i = s.pending i) (hremoving : i ∈ s'.removing → i ∈ s.removing)
    (hread : s'.read i = s.read i)
    (hcomes : ∀ archive, s.Comes archive i → (s.file archive i).isSome = true →
      s'.Comes archive i) :
    s'.Sound searchable i where
  one := by simpa only [hfile] using h.one
  waits := by simpa only [hfile, hpending] using h.waits
  agree archive t ht := by
    rw [hfile] at ht
    rw [hread, hpending, hrows]
    rcases h.agree archive t ht with hr | hc | hd
    · exact .inl hr
    · exact .inr (.inl (hcomes archive hc (by simp [ht])))
    · exact .inr (.inr hd)
  loaded := by simpa only [hfile, hread] using h.loaded
  removing hi := by simpa only [hfile] using h.removing (hremoving hi)

theorem law_boot (store : Sessions μ) (rows : SessionId → List (ℕ × ρ))
    (hone : ∀ i, isIndexed i = true → (store.file .archived i).isSome = true →
      store.file .live i = none) : Law searchable (boot store rows) := by
  intro i hi
  refine ⟨hone i hi, fun archive t _ => List.nil_suffix, fun archive t _ => .inr (.inl ?_),
    nofun, nofun⟩
  refine ⟨_, rfl, ?_⟩
  cases archive with
  | false => simp
  | true => simp

/-! ### Appends and inserts -/

theorem ofSession_concat (l : List (SessionId × μ)) (m : μ) :
    ofSession (l ++ [(i, m)]) j = ofSession l j ++ if j = i then [m] else [] := by
  by_cases h : j = i
  · simp [ofSession, h]
  · simp [ofSession, h, Ne.symm h]

/-- The insert of a session's first waiting row takes it off the list. -/
theorem ofSession_eraseIdx {l : List (SessionId × μ)} {k : ℕ} {m : μ} (hk : l[k]? = some (i, m))
    (hfirst : ∀ y ∈ l.take k, y.1 ≠ i) : ofSession l i = m :: ofSession (l.eraseIdx k) i := by
  obtain ⟨hlt, hget⟩ := List.getElem?_eq_some_iff.mp hk
  have hnone : (l.take k).filter (fun x => x.1 = i) = [] := by
    rw [List.filter_eq_nil_iff]
    exact fun y hy => by simpa using hfirst y hy
  have hsplit : l = l.take k ++ (i, m) :: l.drop (k + 1) := by
    rw [← hget, List.getElem_cons_drop, List.take_append_drop]
  rw [ofSession, ofSession, List.eraseIdx_eq_take_drop_succ]
  conv_lhs => rw [hsplit]
  simp [List.filter_append, hnone]

theorem ofSession_eraseIdx_of_ne {l : List (SessionId × μ)} {k : ℕ} {m : μ}
    (hk : l[k]? = some (i, m)) (hne : j ≠ i) : ofSession (l.eraseIdx k) j = ofSession l j := by
  obtain ⟨hlt, hget⟩ := List.getElem?_eq_some_iff.mp hk
  have hsplit : l = l.take k ++ (i, m) :: l.drop (k + 1) := by
    rw [← hget, List.getElem_cons_drop, List.take_append_drop]
  rw [ofSession, ofSession, List.eraseIdx_eq_take_drop_succ]
  conv_rhs => rw [hsplit]
  simp [List.filter_append, Ne.symm hne]

/-- What an append does to the files of the other sessions. -/
theorem file_append_of_ne (e : Entry μ) (fate : Fate) (hne : j ≠ i) (p : Place) :
    (s.store.append i e fate).file p j = s.store.file p j := by
  unfold Sessions.append
  split
  · rfl
  split
  · rfl
  split
  · rfl
  · rw [file_put, if_neg fun h => hne h.2]

/-- A line of its own is a message of its own. -/
theorem messages_append {t : Transcript μ} (hrest : t.rest = none) (m : μ) :
    (t.append ⟨0, m⟩ .written).messages = t.messages ++ [m] := by
  simp [Transcript.append, hrest, Transcript.messages, Transcript.entries]

namespace Indexed.Sound

theorem archived_of_live (h : s.Sound searchable i) {t : Transcript μ}
    (ht : s.file false i = some t) : s.file true i = none := by
  by_contra hne
  have hnone := h.one (Option.isSome_iff_ne_none.mpr hne)
  rw [ht] at hnone
  cases hnone

/-- A line is appended to the transcript there is. -/
theorem append (h : s.Sound searchable i) {t : Transcript μ} (ht : s.file false i = some t)
    (hrest : t.rest = none) (m : μ) (hlive : s'.file false i = some (t.append ⟨0, m⟩ .written))
    (harchived : s'.file true i = s.file true i) (hpending : s'.pending i = s.pending i ++ [m])
    (hsame : s'.rows = s.rows ∧ s'.removing = s.removing ∧ s'.walk = s.walk) :
    s'.Sound searchable i := by
  obtain ⟨hrows, hremoving, hwalk⟩ := hsame
  have hnone := harchived.trans (h.archived_of_live ht)
  have hread : s'.read i = s.read i := by rw [read, read, hwalk]
  have hfile (archive : Bool) (u : Transcript μ) (hu : s'.file archive i = some u) :
      archive = false ∧ u.messages = t.messages ++ [m] := by
    cases archive with
    | true =>
      rw [hnone] at hu
      cases hu
    | false =>
      rw [hlive] at hu
      rw [← Option.some.inj hu]
      exact ⟨rfl, messages_append hrest m⟩
  refine ⟨fun hsome => ?_, fun archive u hu => ?_, fun archive u hu => ?_,
    fun rows hr archive u hu => ?_, fun hi => ?_⟩
  · rw [hnone] at hsome
    cases hsome
  · rw [(hfile archive u hu).2, hpending]
    obtain ⟨done, hdone⟩ := h.waits false t ht
    exact ⟨done, by rw [← hdone, List.append_assoc]⟩
  · obtain ⟨rfl, hmessages⟩ := hfile archive u hu
    rw [hread, hmessages, hpending, hrows]
    rcases h.agree false t ht with hr | hc | ⟨done, hdone, hd⟩
    · exact .inl hr
    · exact .inr (.inl (by rwa [Comes, hwalk]))
    · exact .inr (.inr ⟨done, by rw [hdone, List.append_assoc], hd⟩)
  · rw [(hfile archive u hu).2]
    obtain ⟨before, hb, hbefore⟩ := h.loaded rows (hread ▸ hr) false t ht
    exact ⟨before, hb, hbefore.trans (List.prefix_append _ _)⟩
  · have hfalse := h.removing (hremoving ▸ hi) false
    rw [ht] at hfalse
    cases hfalse

/-- A transcript is begun, for a session of which nothing is left. -/
theorem create (hblank : s.Blank i) {t : Transcript μ} (hlive : s'.file false i = some t)
    (harchived : s'.file true i = s.file true i) (hpending : s'.pending i = t.messages)
    (hsame : s'.rows = s.rows ∧ s'.removing = s.removing ∧ s'.walk = s.walk) :
    s'.Sound searchable i := by
  obtain ⟨hrows, hremoving, hwalk⟩ := hsame
  have hnone := harchived.trans hblank.archived
  have hread : s'.read i = none := by
    rw [read, hwalk]
    cases hw : s.walk with
    | none => rfl
    | some w =>
      have hloaded := hblank.walk w hw
      cases hl : w.loaded with
      | none => simp [hl]
      | some x => simpa [hl, Option.filter] using hloaded x hl
  have hfile (archive : Bool) (u : Transcript μ) (hu : s'.file archive i = some u) :
      archive = false ∧ u = t := by
    cases archive with
    | true =>
      rw [hnone] at hu
      cases hu
    | false => exact ⟨rfl, (Option.some.inj (hlive.symm.trans hu)).symm⟩
  refine ⟨fun hsome => ?_, fun archive u hu => ?_, fun archive u hu => ?_,
    fun rows hr => ?_, fun hi => absurd (hremoving ▸ hi) hblank.removing⟩
  · rw [hnone] at hsome
    cases hsome
  · rw [(hfile archive u hu).2, hpending]
  · refine .inr (.inr ⟨[], ?_, ?_⟩)
    · rw [(hfile archive u hu).2, hpending, List.nil_append]
    · rw [hrows, hblank.rows]
      rfl
  · rw [hread] at hr
    cases hr

/-- The row of the first waiting message is inserted. -/
theorem insert (h : s.Sound searchable i) {m : μ} (hpending : s.pending i = m :: s'.pending i)
    (hrows : s'.rows i = s.rows i ++ [(nextIndex (s.rows i), searchable m)])
    (hsame : s'.store = s.store ∧ s'.removing = s.removing ∧ s'.walk = s.walk) :
    s'.Sound searchable i := by
  obtain ⟨hstore, hremoving, hwalk⟩ := hsame
  have hfile (archive : Bool) : s'.file archive i = s.file archive i := by rw [file, file, hstore]
  have hread : s'.read i = s.read i := by rw [read, read, hwalk]
  refine ⟨by simpa only [hfile] using h.one, fun archive t ht => ?_, fun archive t ht => ?_,
    by simpa only [hfile, hread] using h.loaded,
    by simpa only [hfile, hremoving] using h.removing⟩
  · rw [hfile] at ht
    have hwaits := h.waits archive t ht
    rw [hpending] at hwaits
    exact (List.suffix_cons m _).trans hwaits
  · rw [hfile] at ht
    rw [hread]
    rcases h.agree archive t ht with hr | hc | ⟨done, hdone, hd⟩
    · exact .inl hr
    · exact .inr (.inl (by rwa [Comes, hwalk]))
    · refine .inr (.inr ⟨done ++ [m], by rw [hdone, hpending]; simp, ?_⟩)
      rw [hrows, hd, catchUpRows_concat]

/-- The transcript is archived. -/
theorem archive (h : s.Sound searchable i) {t : Transcript μ} (ht : s.file false i = some t)
    (hlive : s'.file false i = none) (harchived : s'.file true i = some t)
    (hsame : s'.rows = s.rows ∧ s'.inserting = s.inserting ∧ s'.removing = s.removing ∧
      s'.walk = s.walk) : s'.Sound searchable i := by
  obtain ⟨hrows, hinserting, hremoving, hwalk⟩ := hsame
  have hread : s'.read i = s.read i := by rw [read, read, hwalk]
  have hpending : s'.pending i = s.pending i := by rw [pending, pending, hinserting]
  have hfile (archive : Bool) (u : Transcript μ) (hu : s'.file archive i = some u) :
      archive = true ∧ u = t := by
    cases archive with
    | false =>
      rw [hlive] at hu
      cases hu
    | true => exact ⟨rfl, (Option.some.inj (harchived.symm.trans hu)).symm⟩
  refine ⟨fun _ => hlive, fun archive u hu => ?_, fun archive u hu => ?_,
    fun rows hr archive u hu => ?_, fun hi => ?_⟩
  · rw [(hfile archive u hu).2, hpending]
    exact h.waits false t ht
  · obtain ⟨rfl, rfl⟩ := hfile archive u hu
    rw [hread, hpending, hrows]
    rcases h.agree false u ht with hr | ⟨w, hw, hc⟩ | hd
    · exact .inl hr
    · -- a walk that is to come to the live file has the archive before it
      refine .inr (.inl ⟨w, hwalk ▸ hw, ?_⟩)
      cases ha : w.archive with
      | false => simp
      | true => simp [ha] at hc
    · exact .inr (.inr hd)
  · rw [(hfile archive u hu).2]
    exact h.loaded rows (hread ▸ hr) false t ht
  · have hfalse := h.removing (hremoving ▸ hi) false
    rw [ht] at hfalse
    cases hfalse

/-- A session whose transcript is gone. -/
theorem of_none (hnone : ∀ archive, s'.file archive i = none) : s'.Sound searchable i where
  one := fun _ => hnone false
  waits archive t ht := by simp [hnone] at ht
  agree archive t ht := by simp [hnone] at ht
  loaded rows hr archive t ht := by simp [hnone] at ht
  removing := fun _ => hnone

/-- The rows of a session are replaced by what was read, and that is all there is but for what
waits. -/
theorem commit (h : s.Sound searchable i) {rows : List (ℕ × ρ)} (hread : s.read i = some rows)
    (hall : ∀ archive t, s.file archive i = some t →
      rows.length + (s.pending i).length = t.messages.length)
    (hrows : s'.rows i = rows) (hread' : s'.read i = none)
    (hsame : s'.store = s.store ∧ s'.inserting = s.inserting ∧ s'.removing = s.removing) :
    s'.Sound searchable i := by
  obtain ⟨hstore, hinserting, hremoving⟩ := hsame
  have hfile (archive : Bool) : s'.file archive i = s.file archive i := by rw [file, file, hstore]
  have hpending : s'.pending i = s.pending i := by rw [pending, pending, hinserting]
  refine ⟨by simpa only [hfile] using h.one, by simpa only [hfile, hpending] using h.waits,
    fun archive t ht => ?_, fun rows hr => ?_, by simpa only [hfile, hremoving] using h.removing⟩
  · rw [hfile] at ht
    obtain ⟨before, hb, after, hafter⟩ := h.loaded rows hread archive t ht
    obtain ⟨done, hdone⟩ := h.waits archive t ht
    have hlen := hall archive t ht
    rw [hb, length_catchUpRows] at hlen
    have heq : before ++ after = done ++ s.pending i := hafter.trans hdone.symm
    have hbefore : before.length = done.length := by
      have h₁ := congrArg List.length hdone
      rw [List.length_append] at h₁
      omega
    obtain ⟨rfl, -⟩ := List.append_inj heq hbefore
    exact .inr (.inr ⟨before, by rw [hpending, hdone], hrows.trans hb⟩)
  · rw [hread'] at hr
    cases hr

/-- The transcript is read. -/
theorem read (h : s.Sound searchable i) {archive : Bool} {t : Transcript μ}
    (ht : s.file archive i = some t)
    (hread : s'.read i = some (catchUpRows searchable t.messages))
    (hsame : s'.store = s.store ∧ s'.inserting = s.inserting ∧ s'.removing = s.removing) :
    s'.Sound searchable i := by
  obtain ⟨hstore, hinserting, hremoving⟩ := hsame
  have hfile (archive : Bool) : s'.file archive i = s.file archive i := by
    rw [Indexed.file, Indexed.file, hstore]
  have hpending : s'.pending i = s.pending i := by rw [pending, pending, hinserting]
  refine ⟨by simpa only [hfile] using h.one, by simpa only [hfile, hpending] using h.waits,
    fun archive' u hu => .inl (by rw [hread]; rfl), fun rows hr archive' u hu => ?_,
    by simpa only [hfile, hremoving] using h.removing⟩
  rw [hfile] at hu
  have hut : u = t := by
    cases archive <;> cases archive'
    · exact Option.some.inj (hu.symm.trans ht)
    · rw [h.archived_of_live ht] at hu
      cases hu
    · rw [h.archived_of_live hu] at ht
      cases ht
    · exact Option.some.inj (hu.symm.trans ht)
  rw [hread] at hr
  exact ⟨t.messages, (Option.some.inj hr).symm, hut ▸ List.prefix_rfl⟩

end Indexed.Sound

/-! ### Every step -/

theorem Law.append (h : Law searchable s) {i : SessionId} {m : μ} {fate : Fate}
    (ho : s.Orderly (.append i m fate)) :
    Law searchable (s.step searchable (.append i m fate)).1 := by
  intro j hj
  by_cases hne : j = i
  swap
  · refine (h j hj).congr (fun archive => file_append_of_ne _ _ hne _) rfl ?_ id rfl
      fun archive hc _ => hc
    dsimp only [Indexed.step, Indexed.pending]
    split
    · rw [ofSession_concat, if_neg hne, List.append_nil]
    · rfl
  subst hne
  have hspawn : Transcripts.isSpawnSession j = false := by
    simp only [isIndexed, Bool.and_eq_true, Bool.not_eq_true'] at hj
    exact hj.2
  by_cases htomb : s.store.isTombstoned j = true
  · have hsame : (s.step searchable (.append j m fate)).1 = s := by
      simp [Indexed.step, Indexed.writes, Sessions.append, htomb]
    rw [hsame]
    exact h j hj
  rw [Bool.not_eq_true] at htomb
  by_cases hopen : fate = .unopened
  · have hsame : (s.step searchable (.append j m fate)).1 = s := by
      simp [Indexed.step, Indexed.writes, Sessions.append, hopen]
    rw [hsame]
    exact h j hj
  obtain ⟨hfate, hfile⟩ := ho hj htomb hopen
  have hstore : s.store.append j ⟨0, m⟩ fate = s.store.put .live j
      (some (((s.store.file .live j).getD .empty).append ⟨0, m⟩ fate)) := by
    simp [Sessions.append, hspawn, htomb, hopen]
  have hwrites : s.writes j fate = decide (fate = .written) := by
    simp [Indexed.writes, hspawn, htomb]
  have hlive : (s.step searchable (.append j m fate)).1.file false j =
      some (((s.file false j).getD .empty).append ⟨0, m⟩ fate) := by
    dsimp only [Indexed.step, Indexed.file]
    rw [hstore, file_put, if_pos ⟨rfl, rfl⟩]
  have harchived : (s.step searchable (.append j m fate)).1.file true j = s.file true j := by
    dsimp only [Indexed.step, Indexed.file]
    rw [hstore, file_put]
    rfl
  have hpending : (s.step searchable (.append j m fate)).1.pending j =
      s.pending j ++ if fate = .written then [m] else [] := by
    dsimp only [Indexed.step, Indexed.pending]
    rw [hwrites]
    by_cases hw : fate = .written
    · simp [hw, ofSession_concat]
    · simp [hw]
  cases ht : s.file false j with
  | some t =>
    rw [ht] at hfile hlive
    rcases hfate with rfl | rfl
    · -- nothing got into it
      refine (h j hj).congr (fun archive => ?_) rfl (by simpa using hpending) id rfl
        fun archive hc _ => hc
      cases archive with
      | false => rw [hlive, ht]; rfl
      | true => exact harchived
    · exact (h j hj).append ht hfile m hlive harchived (by simpa using hpending)
        ⟨rfl, rfl, rfl⟩
  | none =>
    rw [ht] at hfile hlive
    refine Indexed.Sound.create hfile hlive harchived ?_ ⟨rfl, rfl, rfl⟩
    rw [hpending, hfile.inserting]
    rcases hfate with rfl | rfl
    · rfl
    · rfl

theorem Law.insert (h : Law searchable s) {k : ℕ} {ok : Bool} (ho : s.Orderly (.insert k ok)) :
    Law searchable (s.step searchable (.insert k ok)).1 := by
  cases hk : s.inserting[k]? with
  | none => simpa [Indexed.step, hk] using h
  | some x =>
    obtain ⟨i, m⟩ := x
    intro j hj
    simp only [Indexed.step, hk]
    by_cases hne : j = i
    · subst hne
      obtain ⟨rfl, hfirst⟩ := ho (j, m) hk hj
      refine (h j hj).insert (m := m) (ofSession_eraseIdx hk hfirst) ?_ ⟨rfl, rfl, rfl⟩
      simp [hj]
    · refine (h j hj).congr (fun _ => rfl) ?_ (ofSession_eraseIdx_of_ne hk hne) id rfl
        fun _ hc _ => hc
      dsimp only
      split
      · exact Function.update_of_ne hne _ _
      · rfl

theorem Law.archive (h : Law searchable s) (i : SessionId) (dirOk ok : Bool) :
    Law searchable (s.step searchable (.archive i dirOk ok)).1 := by
  intro j hj
  by_cases hmoves : dirOk = true ∧ ok = true ∧ (s.store.file .live i).isSome = true
  swap
  · have hsame : (s.store.archiveFile i dirOk ok).1 = s.store := by
      unfold Sessions.archiveFile
      cases dirOk with
      | false => rfl
      | true =>
        cases hfile : s.store.file .live i with
        | none => rfl
        | some t =>
          cases ok with
          | false => rfl
          | true => exact absurd ⟨rfl, rfl, by simp [hfile]⟩ hmoves
    simp only [Indexed.step, hsame]
    exact h j hj
  obtain ⟨rfl, rfl, hsome⟩ := hmoves
  obtain ⟨t, ht⟩ := Option.isSome_iff_exists.mp hsome
  have hstore : (s.store.archiveFile i true true).1 =
      (s.store.put .live i none).put .archived i (some t) := by
    simp [Sessions.archiveFile, ht]
  by_cases hne : j = i
  · subst hne
    refine (h j hj).archive ht ?_ ?_ ⟨rfl, rfl, rfl, rfl⟩
    · simp only [Indexed.step, Indexed.file, hstore, file_put]
      rfl
    · simp only [Indexed.step, Indexed.file, hstore, file_put]
      simp
  · refine (h j hj).congr (fun archive => ?_) rfl rfl id rfl fun _ hc _ => hc
    simp only [Indexed.step, Indexed.file, hstore, file_put, hne, and_false, if_false]

theorem Law.remove (h : Law searchable s) (i : SessionId) (ok : Bool) :
    Law searchable (s.step searchable (.remove i ok)).1 := by
  intro j hj
  by_cases hgone : (s.store.file .live i).isSome = true ∧ ok = true
  swap
  · have hsame : s.store.removeFile i ok = (s.store, false) := by
      unfold Sessions.removeFile
      rw [if_neg]
      simpa using hgone
    simp only [Indexed.step, hsame]
    exact h j hj
  obtain ⟨hsome, rfl⟩ := hgone
  have hstore : s.store.removeFile i true = (s.store.put .live i none, true) := by
    simp [Sessions.removeFile, hsome]
  by_cases hne : j = i
  · subst hne
    obtain ⟨t, ht⟩ := Option.isSome_iff_exists.mp hsome
    refine .of_none fun archive => ?_
    simp only [Indexed.step, Indexed.file, hstore, file_put]
    cases archive with
    | false => simp [Place.live]
    | true =>
      rw [if_neg (by simp [Place.live])]
      exact (h j hj).archived_of_live ht
  · refine (h j hj).congr (fun archive => ?_) rfl rfl (fun hr => ?_) rfl fun _ hc _ => hc
    · simp only [Indexed.step, Indexed.file, hstore, file_put, hne, and_false, if_false]
    · simpa [Indexed.step, hstore, hne] using hr

theorem Law.drop (h : Law searchable s) (k : ℕ) (ok : Bool) :
    Law searchable (s.step searchable (.drop k ok)).1 := by
  cases hk : s.removing[k]? with
  | none => simpa [Indexed.step, hk] using h
  | some i =>
    intro j hj
    simp only [Indexed.step, hk]
    by_cases hne : j = i
    · subst hne
      exact .of_none ((h j hj).removing (List.mem_of_getElem? hk))
    · refine (h j hj).congr (fun _ => rfl) ?_ rfl (List.mem_of_mem_eraseIdx) rfl
        fun _ hc _ => hc
      dsimp only
      split
      · exact Function.update_of_ne hne _ _
      · rfl

theorem read_eq {w : Walk ρ} (hw : s.walk = some w) {x : Option (SessionId × List (ℕ × ρ))}
    (hl : w.loaded = x) : s.read i = (x.filter fun x => x.1 = i).map Prod.snd := by
  rw [Indexed.read, hw, ← hl]
  rfl

/-- The walk goes on, and nothing that it was to come to is left out. -/
theorem Indexed.Sound.walks (h : s.Sound searchable j) {w : Walk ρ} (hw : s.walk = some w)
    (hl : w.loaded = none) {walk : Option (Walk ρ)}
    (hloaded : ∀ w' ∈ walk, ∀ x ∈ w'.loaded, x.1 ≠ j)
    (hcomes : ∀ archive, (if w.archive = archive then ∀ ids ∈ w.todo, j ∈ ids else archive = true) →
      (s.file archive j).isSome = true → Indexed.Comes { s with walk } archive j) :
    Indexed.Sound searchable { s with walk } j := by
  refine h.congr (fun _ => rfl) rfl rfl id ?_ ?_
  · rw [read_eq hw hl, Indexed.read]
    cases walk with
    | none => rfl
    | some w' =>
      cases hl' : w'.loaded with
      | none => simp [hl']
      | some x => simpa [hl', Option.filter] using hloaded w' rfl x hl'
  · rintro archive ⟨w', hw', hc⟩ hsome
    obtain rfl : w = w' := Option.some.inj (hw.symm.trans hw')
    exact hcomes archive hc hsome

/-- The rows that were read replace a session's. -/
theorem Law.commit (h : Law searchable s) {w : Walk ρ} (hw : s.walk = some w)
    {rows : List (ℕ × ρ)} (hl : w.loaded = some (i, rows))
    (hall : ∀ archive t, s.file archive i = some t →
      rows.length + (s.pending i).length = t.messages.length) :
    Law searchable
      { s with rows := Function.update s.rows i rows, walk := some { w with loaded := none } } := by
  intro j hj
  by_cases hne : j = i
  · subst hne
    exact (h j hj).commit (by simp [read_eq hw hl, Option.filter]) hall (by simp) rfl
      ⟨rfl, rfl, rfl⟩
  · refine (h j hj).congr (fun _ => rfl) (Function.update_of_ne hne _ _) rfl id ?_ ?_
    · rw [read_eq hw hl]
      simp [Option.filter, Ne.symm hne, Indexed.read]
    · rintro archive ⟨w', hw', hc⟩ -
      obtain rfl : w = w' := Option.some.inj (hw.symm.trans hw')
      exact ⟨_, rfl, hc⟩

/-- A directory is listed: every file in it is on the list. -/
theorem Law.list (h : Law searchable s) {w : Walk ρ} (hw : s.walk = some w)
    (hl : w.loaded = none) {ids : List SessionId}
    (hids : ids = (s.store.files ⟨w.archive, false⟩).keys) :
    Law searchable { s with walk := some { w with todo := some ids } } := by
  refine fun j hj => (h j hj).walks hw hl (by rintro w' ⟨⟩ x hx; simp [hl] at hx) ?_
  intro archive hc hsome
  refine ⟨_, rfl, ?_⟩
  dsimp only
  split
  · rename_i ha
    rintro ids' ⟨⟩
    by_contra hnot
    rw [hids] at hnot
    rw [Indexed.file, ← ha, Sessions.file, Table.get?_eq_none_iff.mpr hnot] at hsome
    cases hsome
  · rename_i ha
    simpa [ha] using hc

/-- It is the archive's turn, or the end of the walk. -/
theorem Law.listed (h : Law searchable s) {w : Walk ρ} (hw : s.walk = some w)
    (hl : w.loaded = none) (htodo : w.todo = some []) :
    Law searchable { s with walk := if w.archive then none else some ⟨true, none, none⟩ } := by
  refine fun j hj => (h j hj).walks hw hl (fun w' hw' x hx => ?_) fun archive hc _ => ?_
  · split at hw'
    · cases hw'
    · cases hw'
      cases hx
  · rw [htodo] at hc
    cases ha : w.archive with
    | true => cases archive <;> simp [ha] at hc
    | false =>
      cases archive with
      | false => simp [ha] at hc
      | true => exact ⟨_, rfl, by simp⟩

/-- The other entries of a directory are still to come. -/
theorem Law.next (h : Law searchable s) {w : Walk ρ} (hw : s.walk = some w)
    (hl : w.loaded = none) {rest : List SessionId} (htodo : w.todo = some (i :: rest))
    {loaded : Option (SessionId × List (ℕ × ρ))} (hj : isIndexed j = true) (hne : j ≠ i)
    (hloaded : ∀ x ∈ loaded, x.1 = i) : Indexed.Sound searchable
      { s with walk := some { w with todo := some rest, loaded } } j := by
  refine (h j hj).walks hw hl ?_ fun archive hc _ => ⟨_, rfl, ?_⟩
  · rintro w' ⟨⟩ x hx
    exact fun heq => hne (heq.symm.trans (hloaded x hx))
  · dsimp only
    split
    · rename_i ha
      rw [if_pos ha] at hc
      rintro ids ⟨⟩
      exact (List.mem_cons.mp (hc _ htodo)).resolve_left hne
    · rename_i ha
      simpa [ha] using hc

theorem Law.catchUp (h : Law searchable s) {ok : Bool} (ho : s.Orderly (.catchUp ok)) :
    Law searchable (s.step searchable (.catchUp ok)).1 := by
  cases hw : s.walk with
  | none => simpa [Indexed.step, hw] using h
  | some w =>
    obtain ⟨rfl, hcond⟩ := ho w hw
    have hstep : (s.step searchable (.catchUp true)).1 = s.catchUp searchable w true := by
      simp [Indexed.step, hw]
    rw [hstep, Indexed.catchUp]
    cases hl : w.loaded with
    | some x =>
      obtain ⟨i, rows⟩ := x
      exact h.commit hw hl (by simpa [hl] using hcond)
    | none =>
      cases htodo : w.todo with
      | none =>
        have hlist := h.list hw hl rfl
        rw [hl] at hlist
        exact hlist
      | some todo =>
        cases todo with
        | nil =>
          have hlisted := h.listed hw hl htodo
          cases ha : w.archive with
          | true => simpa [ha] using hlisted
          | false => simpa [ha] using hlisted
        | cons i rest =>
          simp only [hl, htodo] at hcond
          dsimp only
          split
          · rename_i hi
            obtain ⟨t, ht⟩ := Option.isSome_iff_exists.mp (hcond hi)
            have ht' : s.store.file ⟨w.archive, false⟩ i = some t := ht
            rw [ht']
            intro j hj
            by_cases hne : j = i
            · subst hne
              exact (h j hj).read ht (by simp [Indexed.read, Option.filter]) ⟨rfl, rfl, rfl⟩
            · exact h.next hw hl htodo hj hne (by rintro x ⟨⟩; rfl)
          · rename_i hi
            exact fun j hj => h.next hw hl htodo hj (fun heq => hi (heq ▸ hj)) nofun

/-- **Every orderly step** keeps the law. -/
theorem Law.step (h : Law searchable s) {e : Event μ} (ho : s.Orderly e) :
    Law searchable (s.step searchable e).1 := by
  cases e with
  | append i m fate => exact h.append ho
  | insert k ok => exact h.insert ho
  | tombstone i => exact fun j hj => (h j hj).congr (fun _ => rfl) rfl rfl id rfl fun _ hc _ => hc
  | archive i dirOk ok => exact h.archive i dirOk ok
  | remove i ok => exact h.remove i ok
  | drop k ok => exact h.drop k ok
  | catchUp ok => exact h.catchUp ho

theorem Law.agrees (h : Law searchable s) (hsettled : s.Settled) : s.Agrees searchable := by
  obtain ⟨hinserting, -, hwalk⟩ := hsettled
  intro i hi archive t ht
  rcases (h i hi).agree archive t ht with hr | ⟨w, hw, -⟩ | ⟨done, hdone, hrows⟩
  · simp [Indexed.read, hwalk] at hr
  · simp [hwalk] at hw
  · have hpending : s.pending i = [] := by simp [Indexed.pending, hinserting, ofSession]
    rw [hrows, hdone, hpending, List.append_nil]

/-- **The session index agrees with the transcripts** after every orderly run of a daemon, whenever
no operation is under way. -/
theorem index_agrees_of_orderly (searchable : μ → ρ) (store : Sessions μ)
    (rows : SessionId → List (ℕ × ρ)) (es : List (Event μ))
    (hone : ∀ i, isIndexed i = true → (store.file .archived i).isSome = true →
      store.file .live i = none)
    (ho : Run.Always (Indexed.step searchable) (boot store rows) (fun _ s e => s.Orderly e) es)
    (hsettled : (Run.final (Indexed.step searchable) (boot store rows) es).Settled) :
    (Run.final (Indexed.step searchable) (boot store rows) es).Agrees searchable :=
  Law.agrees (Run.invariant (I := fun _ s => Law searchable s) (law_boot store rows hone)
    (fun _ _ _ hlaw he => hlaw.step he) ho) hsettled

/-- A data directory with one session of one message, and an index that has never seen it. -/
def oneSession : Sessions ℕ := Watched.new.store.put .live 1 (some ⟨[some ⟨0, 7⟩], none⟩)

/-- The walk lists the live directory, and reads the transcript. -/
def oneRead : List (Event ℕ) := [.catchUp true, .catchUp true]

/-- It goes on to the end of the archive. -/
def walkedOn : List (Event ℕ) := [.catchUp true, .catchUp true, .catchUp true]

/-- A message is appended after the transcript was read, and its row inserted after the rows were
replaced. -/
theorem index_agrees_of_orderly_walk :
    (Run.final (Indexed.step id) (boot oneSession fun _ => [])
      (oneRead ++ [.append 1 8 .written, .catchUp true, .insert 0 true] ++ walkedOn)).Agrees
      id := by
  refine index_agrees_of_orderly id oneSession _ _ ?_ ?_ ⟨rfl, rfl, rfl⟩
  · intro i _ hi
    cases hi
  · simp only [oneRead, walkedOn, List.cons_append, List.nil_append, Run.always_cons]
    refine ⟨?_, ?_, ?_, ?_, ?_, ?_, ?_, ?_, .nil⟩
    · rintro w ⟨⟩
      exact ⟨rfl, trivial⟩
    · rintro w ⟨⟩
      exact ⟨rfl, fun _ => rfl⟩
    · exact fun _ _ _ => ⟨.inr rfl, rfl⟩
    · rintro w ⟨⟩
      refine ⟨rfl, fun archive t ht => ?_⟩
      revert t archive
      simp only [← Option.mem_def]
      decide +kernel
    · rintro x ⟨⟩ -
      exact ⟨rfl, nofun⟩
    · rintro w ⟨⟩
      exact ⟨rfl, trivial⟩
    · rintro w ⟨⟩
      exact ⟨rfl, trivial⟩
    · rintro w ⟨⟩
      exact ⟨rfl, trivial⟩

/-- A message is appended. Its row is inserted, and then the rows are replaced by what was read
before it; or the message is read, and its row inserted after that. Or the walk is over, and the
rows of two messages are inserted in the other order. -/
def overlaps : List (List (Event ℕ)) :=
  [oneRead ++ [.append 1 8 .written, .insert 0 true, .catchUp true] ++ walkedOn,
    [.catchUp true, .append 1 8 .written, .catchUp true, .catchUp true, .insert 0 true] ++ walkedOn,
    oneRead ++ .catchUp true :: walkedOn ++
      [.append 1 8 .written, .append 1 9 .written, .insert 1 true, .insert 0 true]]

/-- Nothing is in flight at the end, and the rows are not the messages. -/
def Diverges (es : List (Event ℕ)) : Prop :=
  (Run.final (Indexed.step id) (boot oneSession fun _ => []) es).Settled ∧
    ¬ (Run.final (Indexed.step id) (boot oneSession fun _ => []) es).Agrees id

theorem not_index_agrees : overlaps.Forall Diverges := by
  refine ⟨⟨⟨rfl, rfl, rfl⟩, fun h => ?_⟩, ⟨⟨rfl, rfl, rfl⟩, fun h => ?_⟩,
    ⟨⟨rfl, rfl, rfl⟩, fun h => ?_⟩⟩
  · exact absurd (h 1 rfl false ⟨[some ⟨0, 7⟩, some ⟨0, 8⟩], none⟩ rfl) (by decide +kernel)
  · exact absurd (h 1 rfl false ⟨[some ⟨0, 7⟩, some ⟨0, 8⟩], none⟩ rfl) (by decide +kernel)
  · exact absurd (h 1 rfl false ⟨[some ⟨0, 7⟩, some ⟨0, 8⟩, some ⟨0, 9⟩], none⟩ rfl)
      (by decide +kernel)

end Law

end ApexOS.Agentd.SessionIndex

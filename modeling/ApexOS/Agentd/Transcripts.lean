import ApexOS.Fabrica.Worker
import ApexOS.Lib.Run
import ApexOS.Lib.Table
import Mathlib.Logic.Function.Basic

/-!
# Transcripts

The session store (`agentd/crates/agentd/src/session_store.rs`), the compression of idle files
(`agentd/crates/core/src/session_gzip.rs`) and the counter that session ids are taken from
(`main.rs`, and `mesh_session_alloc` of the gateway).

A session's transcript is up to four files, the live one and the archived one, each plain or
compressed. Every function has its own idea of which of them there are: `append` creates the live
file, `archive_file` renames over what is in the archive, `gzip_jsonl` drops the plain file if there
is a compressed one, and at boot the counter starts above what `load_all` returns, which are plain
live files only. Tombstones are in memory.

What each call of the file system comes to is an input. Which sessions are loaded, as the sweep
sees it, is an input too.

## Main definitions

* `Transcript`, `Place`, `Sessions`: the files and the counter
* `Sessions.append`, `archiveFile`, `removeFile`, `gzipJsonl`, `loadOne`, `loadAll`: the store
* `Watched`: and which appends went well, of which session
* `Intact`: what is expected of one step
* `Sound`: no step that takes one transcript for another's, or writes where nothing is read

## Main results

* `Law.step`: the invariant
* `intact_of_sound`: every sound run keeps its transcripts
-/

namespace ApexOS.Agentd.Transcripts

open ApexOS.Fabrica (workerSessionBase isWorkerSession)

variable {μ : Type*}

/-- `is_spawn_session`. -/
def isSpawnSession (i : SessionId) : Bool := Fabrica.spawnSessionBase ≤ i

/-! ### Files -/

/-- A message, with the number of its append: the number is not in the file. -/
structure Entry (μ : Type*) where
  number : ℕ
  message : μ
  deriving DecidableEq

/-- A transcript file, by what its lines parse as. -/
structure Transcript (μ : Type*) where
  lines : List (Option (Entry μ))
  /-- A last line that was not finished. -/
  rest : Option (Option (Entry μ))
  deriving DecidableEq

/-- What `OpenOptions::create(true)` makes. -/
def Transcript.empty : Transcript μ := ⟨[], none⟩

/-- `text.lines()`, those that parse. -/
def Transcript.entries (t : Transcript μ) : List (Entry μ) :=
  (t.lines ++ t.rest.toList).filterMap id

def Transcript.messages (t : Transcript μ) : List μ := t.entries.map Entry.message

def Transcript.numbers (t : Transcript μ) : List ℕ := t.entries.map Entry.number

/-- How an append goes. -/
inductive Fate
  /-- The file is not opened. -/
  | unopened
  /-- It is, and nothing gets into it. -/
  | nothing
  /-- Part of the line does; the whole of it, perhaps, but for its end. -/
  | part (whole : Bool)
  | written
  deriving DecidableEq

/-- `write_all` of a line. Two lines run together do not parse. -/
def Transcript.append (t : Transcript μ) (e : Entry μ) : Fate → Transcript μ
  | .unopened | .nothing => t
  | .part whole =>
    match t.rest with
    | none => { t with rest := some (if whole then some e else none) }
    | some _ => { t with rest := some none }
  | .written =>
    match t.rest with
    | none => { t with lines := t.lines ++ [some e] }
    | some _ => ⟨t.lines ++ [none], none⟩

theorem Transcript.numbers_eq (t : Transcript μ) : t.numbers =
    (t.lines.filterMap id).map Entry.number ++ (t.rest.toList.filterMap id).map Entry.number := by
  simp [Transcript.numbers, Transcript.entries]

theorem Transcript.mem_rest {t : Transcript μ} {e : Entry μ} (h : t.rest = some (some e)) :
    e.number ∈ t.numbers := by
  simp [numbers_eq, h]

/-- An append adds its number at most, at the end. -/
theorem Transcript.numbers_append (t : Transcript μ) (e : Entry μ) (fate : Fate) :
    (t.append e fate).numbers.Sublist (t.numbers ++ [e.number]) := by
  have hself : t.numbers.Sublist (t.numbers ++ [e.number]) := List.sublist_append_left _ _
  unfold Transcript.append
  split
  · exact hself
  · exact hself
  · split
    · rename_i hrest
      rename Bool => whole
      cases whole with
      | true => simp [numbers_eq, hrest]
      | false => simp [numbers_eq, hrest]
    · simp [numbers_eq]
  · split
    · rename_i hrest
      simp [numbers_eq, hrest]
    · simp [numbers_eq]

/-- What is in the file stays there, but for a last line that was not finished. -/
theorem Transcript.mem_append {t : Transcript μ} {n : ℕ} (hn : n ∈ t.numbers)
    (hrest : ∀ e, t.rest = some (some e) → e.number ≠ n) (e : Entry μ) (fate : Fate) :
    n ∈ (t.append e fate).numbers := by
  have hlines : n ∈ (t.lines.filterMap id).map Entry.number := by
    rw [numbers_eq, List.mem_append] at hn
    refine hn.resolve_right fun hlast => ?_
    obtain ⟨e', he', rfl⟩ := List.mem_map.mp hlast
    have hsome : t.rest = some (some e') := by simpa using he'
    exact hrest e' hsome rfl
  unfold Transcript.append
  split
  · exact hn
  · exact hn
  · split <;> exact (numbers_eq _).symm ▸ List.mem_append_left _ hlines
  · split <;> rw [numbers_eq, List.filterMap_append, List.map_append, List.append_assoc] <;>
      exact List.mem_append_left _ hlines

/-- What is written after a finished line is read. -/
theorem Transcript.mem_written {t : Transcript μ} (hrest : t.rest = none) (e : Entry μ) :
    e.number ∈ (t.append e .written).numbers := by
  simp [Transcript.append, hrest, numbers_eq]

theorem Transcript.rest_append {t : Transcript μ} {e e' : Entry μ} {fate : Fate}
    (h : (t.append e fate).rest = some (some e')) :
    t.rest = some (some e') ∨ (e' = e ∧ fate ≠ .written) := by
  unfold Transcript.append at h
  split at h
  · exact .inl h
  · exact .inl h
  · split at h
    · rename Bool => whole
      cases whole with
      | true => exact .inr ⟨by simpa using h.symm, nofun⟩
      | false => simp at h
    · simp at h
  · split at h
    · rename_i hrest
      simp [hrest] at h
    · simp at h

/-- Where a file is: `sessions/` or `sessions/archive/`, `.jsonl` or `.jsonl.gz`. -/
structure Place where
  archive : Bool
  gz : Bool
  deriving DecidableEq

/-- `session_path`. -/
abbrev Place.live : Place := ⟨false, false⟩

/-- `gz_path` of it. -/
abbrev Place.liveGz : Place := ⟨false, true⟩

abbrev Place.archived : Place := ⟨true, false⟩

/-! ### The store -/

/-- The files, and what the daemon has in memory of ids. -/
structure Sessions (μ : Type*) where
  files : Place → Table SessionId (Transcript μ)
  /-- `mesh_sessions.json`, unless it does not parse. -/
  meshFile : Option (Table String SessionId)
  tombstones : List SessionId
  nextSessionId : SessionId
  meshSessions : Table String SessionId

namespace Sessions

def file (s : Sessions μ) (p : Place) (i : SessionId) : Option (Transcript μ) := (s.files p).get? i

/-- A file is written, or removed. -/
def put (s : Sessions μ) (p : Place) (i : SessionId) (t : Option (Transcript μ)) : Sessions μ :=
  { s with files := Function.update s.files p (match t with
      | some t => (s.files p).insert i t
      | none => (s.files p).erase i) }

/-- `tombstone`. -/
def tombstone (s : Sessions μ) (i : SessionId) : Sessions μ :=
  { s with tombstones := i :: s.tombstones }

/-- `is_tombstoned`. -/
def isTombstoned (s : Sessions μ) (i : SessionId) : Bool := decide (i ∈ s.tombstones)

/-- `append`. -/
def append (s : Sessions μ) (i : SessionId) (e : Entry μ) (fate : Fate) : Sessions μ :=
  if isSpawnSession i then s
  else if s.isTombstoned i then s
  else if fate = .unopened then s
  else s.put .live i (some (((s.file .live i).getD .empty).append e fate))

/-- `remove_file`. -/
def removeFile (s : Sessions μ) (i : SessionId) (ok : Bool) : Sessions μ × Bool :=
  if (s.file .live i).isSome && ok then (s.put .live i none, true) else (s, false)

/-- `archive_file`: `none` where the directory cannot be made. -/
def archiveFile (s : Sessions μ) (i : SessionId) (dirOk ok : Bool) : Sessions μ × Option Bool :=
  if !dirOk then (s, none)
  else
    match s.file .live i with
    | none => (s, some false)
    | some t =>
      if ok then ((s.put .live i none).put .archived i (some t), some true) else (s, some false)

/-- `gzip_jsonl`: the compressed file is written, the plain one removed. -/
def gzipJsonl (s : Sessions μ) (archive : Bool) (i : SessionId) (copied removed : Bool) :
    Sessions μ :=
  match s.file ⟨archive, false⟩ i with
  | none => s
  | some t =>
    if (s.file ⟨archive, true⟩ i).isSome then
      -- it is there already
      if removed then s.put ⟨archive, false⟩ i none else s
    else if copied then
      let s := s.put ⟨archive, true⟩ i (some t)
      if removed then s.put ⟨archive, false⟩ i none else s
    else s

/-- `should_gzip`. -/
def shouldGzip (i : SessionId) (loaded : List SessionId) (age ttl : ℕ) : Bool :=
  if ttl = 0 then false
  else if i = 0 then false
  else if isWorkerSession i || isSpawnSession i then false
  else if i ∈ loaded then false
  else ttl ≤ age

section Load

/-! `repair` stands for `repair_history`: it decides whether a history is empty. -/

variable (repair : List μ → List μ)

/-- `load_one`: the plain file, or the compressed one. -/
def loadOne (s : Sessions μ) (i : SessionId) (readable : Place → Bool) : Option (List μ) :=
  let text (p : Place) := (s.file p i).filter fun _ => readable p
  match (text .live).or (text .liveGz) with
  | none => none
  | some t =>
    let messages := repair t.messages
    if messages.isEmpty then none else some messages

/-- `load_all`. -/
def loadAll (s : Sessions μ) (readable : SessionId → Bool) : List (SessionId × List μ) :=
  (s.files .live).entries.filterMap fun (i, t) =>
    if isWorkerSession i then none
    else if !readable i then none
    else
      let messages := repair t.messages
      if messages.isEmpty then none else some (i, messages)

/-- `max().unwrap_or(0)` -/
def maxId (ids : List SessionId) : SessionId := ids.foldr (fun i m => if m ≤ i then i else m) 0

/-- `max_loaded_sid`. -/
def maxLoadedSid (s : Sessions μ) (readable : SessionId → Bool) : SessionId :=
  let loaded := ((s.loadAll repair readable).map Prod.fst).filter fun i => i < workerSessionBase
  maxId [maxId loaded, maxId (s.meshFile.getD .empty).values]

/-- The daemon starts, on the files that are there. -/
def boot (s : Sessions μ) (readable : SessionId → Bool) : Sessions μ :=
  { s with
    tombstones := []
    nextSessionId := s.maxLoadedSid repair readable + 1
    meshSessions := s.meshFile.getD .empty }

end Load

/-! ### Ids -/

/-- How the write of `mesh_sessions.json` goes. -/
inductive MapWrite
  | written
  | unwritten
  | torn

/-- An id is taken: a socket, a fresh chat, a goal. -/
def connect (s : Sessions μ) : Sessions μ := { s with nextSessionId := s.nextSessionId + 1 }

/-- `mesh_session_for`. -/
def meshSessionFor (s : Sessions μ) (peer : String) (write : MapWrite) : Sessions μ :=
  match s.meshSessions.get? peer with
  | some _ => s
  | none =>
    let mesh := s.meshSessions.insert peer s.nextSessionId
    { s.connect with
      meshSessions := mesh
      meshFile := match write with
        | .written => some mesh
        | .unwritten => s.meshFile
        | .torn => none }

end Sessions

/-! ### Runs -/

/-- The inputs. -/
inductive Event (μ : Type*)
  | connect
  | mesh (peer : String) (write : Sessions.MapWrite)
  | append (i : SessionId) (m : μ) (fate : Fate)
  | delete (i : SessionId) (ok : Bool)
  | archive (i : SessionId) (dirOk ok : Bool)
  /-- A file's turn in `gzip_idle`. -/
  | gzip (archive : Bool) (i : SessionId) (loaded : List SessionId) (age ttl : ℕ)
      (copied removed : Bool)
  | loadOne (i : SessionId) (readable : Place → Bool)
  | restart (readable : SessionId → Bool)

/-- An append that went well: the session, by its id and by how many were handed out under it
before, and the number. -/
structure Sent where
  id : SessionId
  epoch : ℕ
  number : ℕ
  deriving DecidableEq

/-- The store and its history. -/
structure Watched (μ : Type*) where
  store : Sessions μ
  /-- How many appends there were. -/
  next : ℕ
  /-- How often the id was handed out. -/
  epoch : SessionId → ℕ
  /-- What was appended to sessions that were not deleted. -/
  sent : List Sent

/-- The first boot. -/
def Watched.new : Watched μ where
  store :=
    { files := fun _ => .empty
      meshFile := none
      tombstones := []
      nextSessionId := 1
      meshSessions := .empty }
  next := 0
  epoch := fun _ => 0
  sent := []

namespace Watched

/-- An id is handed out. -/
def handOut (w : Watched μ) : SessionId → ℕ :=
  Function.update w.epoch w.store.nextSessionId (w.epoch w.store.nextSessionId + 1)

/-- Whether an append goes well. -/
def accepts (w : Watched μ) (i : SessionId) (fate : Fate) : Bool :=
  !isSpawnSession i && !w.store.isTombstoned i && decide (fate = .written)

/-- One step, and what `load_one` returns. -/
def step (repair : List μ → List μ) (w : Watched μ) : Event μ → Watched μ × Option (List μ)
  | .connect => ({ w with store := w.store.connect, epoch := w.handOut }, none)
  | .mesh peer write =>
    ({ w with
        store := w.store.meshSessionFor peer write
        epoch := if (w.store.meshSessions.get? peer).isSome then w.epoch else w.handOut }, none)
  | .append i m fate =>
    ({ w with
        store := w.store.append i ⟨w.next, m⟩ fate
        next := w.next + 1
        sent := if w.accepts i fate then w.sent ++ [⟨i, w.epoch i, w.next⟩] else w.sent }, none)
  | .delete i ok =>
    -- the root session is refused; else it is tombstoned first
    if i = 0 then (w, none)
    else
      let r := (w.store.tombstone i).removeFile i ok
      ({ w with
          store := r.1
          sent := if r.2 then w.sent.filter (fun x => !decide (x.id = i ∧ x.epoch = w.epoch i))
            else w.sent }, none)
  | .archive i dirOk ok =>
    if i = 0 then (w, none)
    else ({ w with store := ((w.store.tombstone i).archiveFile i dirOk ok).1 }, none)
  | .gzip archive i loaded age ttl copied removed =>
    if Sessions.shouldGzip i loaded age ttl then
      ({ w with store := w.store.gzipJsonl archive i copied removed }, none)
    else (w, none)
  | .loadOne i readable => (w, w.store.loadOne repair i readable)
  | .restart readable => ({ w with store := w.store.boot repair readable }, none)

/-- The step hands an id out. -/
def HandsOut (w : Watched μ) : Event μ → Prop
  | .connect => True
  | .mesh peer _ => w.store.meshSessions.get? peer = none
  | _ => False

end Watched

/-- The message can be read in that file. -/
def Sessions.HeldIn (s : Sessions μ) (p : Place) (x : Sent) : Prop :=
  ∃ t, s.file p x.id = some t ∧ x.number ∈ t.numbers

/-- What is expected of one step. -/
structure Intact (repair : List μ → List μ) (w : Watched μ) (e : Event μ) : Prop where
  /-- What was appended well is in exactly one file. -/
  kept : ∀ x ∈ (w.step repair e).1.sent, ∃! p, (w.step repair e).1.store.HeldIn p x
  /-- A file has its messages in the order of the appends. -/
  ordered : ∀ p i t, (w.step repair e).1.store.file p i = some t → t.numbers.Pairwise (· < ·)
  /-- No file of any kind is there for an id that is handed out. -/
  fresh : w.HandsOut e → ∀ p, w.store.file p w.store.nextSessionId = none

/-- The ids that a boot sees: of the plain live files that it can read messages in, and in the mesh
map. -/
def Sessions.seen (repair : List μ → List μ) (s : Sessions μ) (readable : SessionId → Bool) :
    List SessionId :=
  ((s.files .live).entries.filter fun (i, t) => !isWorkerSession i && decide (i < workerSessionBase)
    && readable i && !(repair t.messages).isEmpty).map Prod.fst ++
    (s.meshFile.getD .empty).values

/-- No step that takes one transcript for another's, or writes where nothing is read. -/
def Sound (repair : List μ → List μ) (w : Watched μ) : Event μ → Prop
  -- ordinary ids stay below the workers'
  | .connect => w.store.nextSessionId < workerSessionBase
  | .mesh peer _ => w.store.meshSessions.get? peer = none →
      w.store.nextSessionId < workerSessionBase
  | .append i _ fate =>
    isSpawnSession i = false → w.store.isTombstoned i = false → fate ≠ .unopened →
      -- the counter has passed the id, and the last line was finished
      (i < w.store.nextSessionId ∨ isWorkerSession i = true) ∧
        (fate = .written → ∀ t ∈ w.store.file .live i, t.rest = none)
  | .archive i dirOk ok =>
    i ≠ 0 → dirOk = true → ok = true → (w.store.file .live i).isSome = true →
      -- nothing that was appended well is in the file that is renamed over
      ∀ x ∈ w.sent, x.id = i → ¬ w.store.HeldIn .archived x
  | .gzip archive i loaded age ttl copied removed =>
    Sessions.shouldGzip i loaded age ttl = true →
      -- nothing that was appended well is in the file, or it is moved
      (∀ x ∈ w.sent, x.id = i → ¬ w.store.HeldIn ⟨archive, false⟩ x) ∨
      ((w.store.file ⟨archive, true⟩ i).isNone = true ∧ (copied = true → removed = true))
  | .restart readable =>
    -- whatever file there is, its id or a later one is seen
    ∀ archive gz, ∀ x ∈ (w.store.files ⟨archive, gz⟩).entries, isWorkerSession x.1 = false →
      ∃ j ∈ w.store.seen repair readable, x.1 ≤ j
  | _ => True

instance decidableHeldIn (s : Sessions μ) (p : Place) (x : Sent) : Decidable (s.HeldIn p x) :=
  decidable_of_iff (∃ t ∈ s.file p x.id, x.number ∈ t.numbers) Iff.rfl

instance decidableSound (repair : List μ → List μ) (w : Watched μ) :
    ∀ e, Decidable (Sound repair w e)
  | .connect => inferInstanceAs (Decidable (_ < _))
  | .mesh _ _ => inferInstanceAs (Decidable (_ → _))
  | .append _ _ _ => inferInstanceAs (Decidable (_ → _ → _ → _ ∧ (_ → ∀ _ ∈ _, _)))
  | .delete _ _ => inferInstanceAs (Decidable True)
  | .archive _ _ _ => inferInstanceAs (Decidable (_ → _ → _ → _ → ∀ _ ∈ _, _))
  | .gzip _ _ _ _ _ _ _ => inferInstanceAs (Decidable (_ → (∀ _ ∈ _, _) ∨ _))
  | .loadOne _ _ => inferInstanceAs (Decidable True)
  | .restart _ => inferInstanceAs (Decidable (∀ _ _, ∀ _ ∈ _, _ → ∃ _ ∈ _, _))

/-! ### Lemmas of the store -/

section Store

variable {s : Sessions μ} {p q : Place} {i j : SessionId} {x : Sent}

@[simp] theorem file_put (t : Option (Transcript μ)) :
    (s.put p i t).file q j = if q = p ∧ j = i then t else s.file q j := by
  by_cases hq : q = p
  · subst hq
    cases t with
    | none => by_cases hj : j = i <;> simp [Sessions.put, Sessions.file, Table.get?_erase, hj]
    | some t => by_cases hj : j = i <;> simp [Sessions.put, Sessions.file, Table.get?_insert, hj]
  · cases t <;> simp [Sessions.put, Sessions.file, hq]

/-- Two files are written in either order. -/
theorem put_comm (hpq : p ≠ q) (t u : Option (Transcript μ)) :
    (s.put p i t).put q i u = (s.put q i u).put p i t := by
  simp only [Sessions.put, Function.update_of_ne hpq, Function.update_of_ne hpq.symm,
    Function.update_comm hpq]

theorem heldIn_put (t : Option (Transcript μ)) :
    (s.put p i t).HeldIn q x ↔
      if q = p ∧ x.id = i then ∃ t', t = some t' ∧ x.number ∈ t'.numbers else s.HeldIn q x := by
  unfold Sessions.HeldIn
  rw [file_put]
  split <;> rfl

/-- A file is moved, over one that does not hold the message. -/
theorem existsUnique_move {t : Transcript μ} (hpq : p ≠ q) (hfile : s.file p i = some t)
    (hover : x.id = i → ¬ s.HeldIn q x) (h : ∃! r, s.HeldIn r x) :
    ∃! r, ((s.put p i none).put q i (some t)).HeldIn r x := by
  obtain ⟨r, hr, huniq⟩ := h
  by_cases hi : x.id = i
  · have hsource : x.number ∈ t.numbers ↔ s.HeldIn p x := by
      unfold Sessions.HeldIn
      rw [hi, hfile]
      simp
    by_cases hrp : r = p
    · subst hrp
      refine ⟨q, ?_, fun r' hr' => ?_⟩
      · simp only [heldIn_put, hi, and_self, if_true]
        exact ⟨t, rfl, hsource.mpr hr⟩
      · by_contra hne
        simp only [heldIn_put, hne, if_false, hi, and_true] at hr'
        split at hr'
        · obtain ⟨t', ht', -⟩ := hr'
          cases ht'
        · exact absurd (huniq r' hr') ‹_›
    · have hrq : r ≠ q := by
        rintro rfl
        exact hover hi hr
      refine ⟨r, ?_, fun r' hr' => ?_⟩
      · simpa only [heldIn_put, hrq, hrp, false_and, if_false] using hr
      · simp only [heldIn_put, hi, and_true] at hr'
        split at hr'
        · obtain ⟨t', ht', hn⟩ := hr'
          cases ht'
          exact absurd (huniq p (hsource.mp hn)).symm hrp
        · split at hr'
          · obtain ⟨t', ht', -⟩ := hr'
            cases ht'
          · exact huniq r' hr'
  · simpa only [heldIn_put, hi, and_false, if_false] using ⟨r, hr, huniq⟩

/-- A file changes in nothing that concerns the message. -/
theorem existsUnique_put {t : Option (Transcript μ)}
    (hsame : x.id = i → ((∃ t', t = some t' ∧ x.number ∈ t'.numbers) ↔ s.HeldIn p x))
    (h : ∃! r, s.HeldIn r x) : ∃! r, (s.put p i t).HeldIn r x := by
  have heq : ∀ r, (s.put p i t).HeldIn r x ↔ s.HeldIn r x := by
    intro r
    rw [heldIn_put]
    split
    · rename_i hri
      obtain ⟨rfl, hi⟩ := hri
      exact hsame hi
    · exact Iff.rfl
  simpa only [heq] using h

end Store

/-! ### The invariant -/

/-- **The invariant.** -/
structure Law (w : Watched μ) : Prop where
  counter : w.store.nextSessionId ≤ workerSessionBase
  fresh : ∀ p i t, w.store.file p i = some t → i < w.store.nextSessionId ∨ isWorkerSession i = true
  mesh : ∀ i ∈ w.store.meshSessions.values, i < w.store.nextSessionId
  meshFile : ∀ m, w.store.meshFile = some m → ∀ i ∈ m.values, i < w.store.nextSessionId
  ordered : ∀ p i t, w.store.file p i = some t → t.numbers.Pairwise (· < ·)
  bounded : ∀ p i t, w.store.file p i = some t → ∀ n ∈ t.numbers, n < w.next
  kept : ∀ x ∈ w.sent, ∃! p, w.store.HeldIn p x
  /-- A line that is not finished is no append that went well. -/
  finished : ∀ x ∈ w.sent, ∀ p t e, w.store.file p x.id = some t → t.rest = some (some e) →
    e.number ≠ x.number
  epoch : ∀ x ∈ w.sent, x.epoch = w.epoch x.id

section Law

variable {w : Watched μ} {repair : List μ → List μ}

theorem file_new (p : Place) (i : SessionId) :
    (Watched.new : Watched μ).store.file p i = none := rfl

theorem Law.new : Law (Watched.new : Watched μ) where
  counter := show (1 : SessionId) ≤ workerSessionBase by decide
  fresh p i t h := by simp [file_new] at h
  mesh := nofun
  meshFile := nofun
  ordered p i t h := by simp [file_new] at h
  bounded p i t h := by simp [file_new] at h
  kept := nofun
  finished := nofun
  epoch := nofun

/-- What was appended well has a number that was given out. -/
theorem Law.number_lt (h : Law w) {x : Sent} (hx : x ∈ w.sent) : x.number < w.next := by
  obtain ⟨p, ⟨t, ht, hn⟩, -⟩ := h.kept x hx
  exact h.bounded p x.id t ht _ hn

/-- The files are moved and removed, and sessions deleted, such that what is left is kept. -/
theorem Law.of_files (h : Law w) {s : Sessions μ} {sent : List Sent}
    (hids : (s.nextSessionId, s.meshSessions, s.meshFile) =
      (w.store.nextSessionId, w.store.meshSessions, w.store.meshFile))
    (hsent : ∀ x ∈ sent, x ∈ w.sent)
    (hfile : ∀ p i t, s.file p i = some t → ∃ q, w.store.file q i = some t)
    (hkept : ∀ x ∈ sent, ∃! p, s.HeldIn p x) : Law { w with store := s, sent := sent } := by
  simp only [Prod.mk.injEq] at hids
  obtain ⟨hnext, hmesh, hmeshFile⟩ := hids
  refine ⟨?_, ?_, ?_, ?_, ?_, ?_, hkept, ?_, fun x hx => h.epoch x (hsent x hx)⟩
  · simpa only [hnext] using h.counter
  · intro p i t ht
    obtain ⟨q, hq⟩ := hfile p i t ht
    simpa only [hnext] using h.fresh q i t hq
  · simpa only [hmesh, hnext] using h.mesh
  · simpa only [hmeshFile, hnext] using h.meshFile
  · intro p i t ht
    obtain ⟨q, hq⟩ := hfile p i t ht
    exact h.ordered q i t hq
  · intro p i t ht
    obtain ⟨q, hq⟩ := hfile p i t ht
    exact h.bounded q i t hq
  · intro x hx p t e ht
    obtain ⟨q, hq⟩ := hfile p x.id t ht
    exact h.finished x (hsent x hx) q t e hq

/-- An id is handed out: there is no file for it. -/
theorem Law.no_file (h : Law w) (hbase : w.store.nextSessionId < workerSessionBase) (p : Place) :
    w.store.file p w.store.nextSessionId = none := by
  cases hfile : w.store.file p w.store.nextSessionId with
  | none => rfl
  | some t =>
    rcases h.fresh p _ t hfile with hlt | hworker
    · exact absurd hlt (UInt64.lt_irrefl _)
    · simp only [isWorkerSession, Bool.and_eq_true, decide_eq_true_eq] at hworker
      exact absurd hworker.1 (UInt64.not_le.mpr hbase)

theorem lt_succ_of_le {i n : SessionId} (hbase : n < workerSessionBase) (h : i ≤ n) :
    i < n + 1 := by
  rw [UInt64.lt_iff_toNat_lt] at hbase ⊢
  rw [UInt64.le_iff_toNat_le] at h
  have hw : workerSessionBase.toNat = 0x4000000000000000 := rfl
  rw [UInt64.toNat_add, UInt64.toNat_one]
  omega

theorem succ_le_of_lt {n : SessionId} (hbase : n < workerSessionBase) :
    n + 1 ≤ workerSessionBase := by
  rw [UInt64.lt_iff_toNat_lt] at hbase
  rw [UInt64.le_iff_toNat_le]
  have hw : workerSessionBase.toNat = 0x4000000000000000 := rfl
  rw [UInt64.toNat_add, UInt64.toNat_one]
  omega

/-- The counter goes on. -/
theorem Law.handOut (h : Law w) (hbase : w.store.nextSessionId < workerSessionBase) :
    Law { w with store := w.store.connect, epoch := w.handOut } where
  counter := succ_le_of_lt hbase
  fresh p i t ht := (h.fresh p i t ht).imp_left fun hlt =>
    lt_succ_of_le hbase (UInt64.le_of_lt hlt)
  mesh i hi := lt_succ_of_le hbase (UInt64.le_of_lt (h.mesh i hi))
  meshFile m hm i hi := lt_succ_of_le hbase (UInt64.le_of_lt (h.meshFile m hm i hi))
  ordered := h.ordered
  bounded := h.bounded
  kept := h.kept
  finished := h.finished
  epoch x hx := by
    obtain ⟨p, ⟨t, ht, -⟩, -⟩ := h.kept x hx
    have hne : x.id ≠ w.store.nextSessionId := by
      intro heq
      rw [heq, h.no_file hbase p] at ht
      cases ht
    simpa only [Watched.handOut, Function.update_of_ne hne] using h.epoch x hx

/-- A peer's session is recorded. -/
theorem Law.meshSession (h : Law w) {mesh : Table String SessionId}
    {file : Option (Table String SessionId)}
    (hmesh : ∀ i ∈ mesh.values, i < w.store.nextSessionId)
    (hfile : ∀ m, file = some m → ∀ i ∈ m.values, i < w.store.nextSessionId) :
    Law { w with store := { w.store with meshSessions := mesh, meshFile := file } } :=
  ⟨h.counter, h.fresh, hmesh, hfile, h.ordered, h.bounded, h.kept, h.finished, h.epoch⟩

theorem Law.mesh_step (h : Law w) (peer : String) (write : Sessions.MapWrite)
    (hsound : Sound repair w (.mesh peer write)) :
    Law (w.step repair (.mesh peer write)).1 := by
  cases hpeer : w.store.meshSessions.get? peer with
  | some i => simpa [Watched.step, Sessions.meshSessionFor, hpeer] using h
  | none =>
    have hbase := hsound hpeer
    have hout := h.handOut hbase
    have hmesh : ∀ i ∈ (w.store.meshSessions.insert peer w.store.nextSessionId).values,
        i < w.store.connect.nextSessionId := by
      intro i hi
      rcases Table.mem_values_insert hi with rfl | hi
      · exact lt_succ_of_le hbase (UInt64.le_refl _)
      · exact hout.mesh i hi
    have hlaw : ∀ file, (∀ m, file = some m → ∀ i ∈ m.values,
        i < w.store.connect.nextSessionId) → Law { w with
          store := { w.store.connect with
            meshSessions := w.store.meshSessions.insert peer w.store.nextSessionId
            meshFile := file }
          epoch := w.handOut } := fun _ hfile => hout.meshSession hmesh hfile
    simp only [Watched.step, Sessions.meshSessionFor, hpeer, Option.isSome_none,
      Bool.false_eq_true, if_false]
    cases write with
    | written => exact hlaw _ fun m hm => by cases hm; exact hmesh
    | unwritten => exact hlaw _ hout.meshFile
    | torn => exact hlaw _ nofun

/-- A message is appended to the live file. -/
theorem Law.appended (h : Law w) {i : SessionId} (m : μ) (fate : Fate) {t : Transcript μ}
    (ht : (w.store.file .live i).getD .empty = t)
    (hid : i < w.store.nextSessionId ∨ isWorkerSession i = true)
    (hrest : fate = .written → t.rest = none) :
    Law { w with
      store := w.store.put .live i (some (t.append ⟨w.next, m⟩ fate))
      next := w.next + 1
      sent := if fate = .written then w.sent ++ [⟨i, w.epoch i, w.next⟩] else w.sent } := by
  have hlive : t = .empty ∨ w.store.file .live i = some t := by
    cases hfile : w.store.file .live i with
    | none => exact .inl (by rw [← ht, hfile]; rfl)
    | some u => exact .inr (by rw [← ht, hfile]; rfl)
  have hbound : ∀ n ∈ t.numbers, n < w.next := by
    rcases hlive with rfl | hfile
    · exact nofun
    · exact h.bounded _ _ _ hfile
  have hnumbers := t.numbers_append ⟨w.next, m⟩ fate
  have hfile {p j u} (hu : (w.store.put .live i (some (t.append ⟨w.next, m⟩ fate))).file p j =
      some u) : (j = i ∧ u = t.append ⟨w.next, m⟩ fate) ∨ w.store.file p j = some u := by
    rw [file_put] at hu
    split at hu
    · exact .inl ⟨And.right ‹_›, (Option.some.inj hu).symm⟩
    · exact .inr hu
  have hsent {x} (hx : x ∈ if fate = .written then w.sent ++ [⟨i, w.epoch i, w.next⟩]
      else w.sent) : x ∈ w.sent ∨ (fate = .written ∧ x = ⟨i, w.epoch i, w.next⟩) := by
    split at hx
    · exact (List.mem_append.mp hx).imp_right fun hx => ⟨‹_›, List.mem_singleton.mp hx⟩
    · exact .inl hx
  refine ⟨h.counter, ?_, h.mesh, h.meshFile, ?_, ?_, ?_, ?_, ?_⟩
  · intro p j u hu
    rcases hfile hu with ⟨rfl, -⟩ | hu
    · exact hid
    · exact h.fresh p j u hu
  · intro p j u hu
    rcases hfile hu with ⟨-, rfl⟩ | hu
    · refine List.Pairwise.sublist hnumbers ?_
      have hpairwise : t.numbers.Pairwise (· < ·) := by
        rcases hlive with rfl | hfile
        · exact List.Pairwise.nil
        · exact h.ordered _ _ _ hfile
      refine List.pairwise_append.mpr ⟨hpairwise, List.pairwise_singleton _ _, ?_⟩
      intro a ha b hb
      rw [List.mem_singleton.mp hb]
      exact hbound a ha
    · exact h.ordered p j u hu
  · intro p j u hu n hn
    rcases hfile hu with ⟨-, rfl⟩ | hu
    · rcases List.mem_append.mp (hnumbers.subset hn) with hn | hn
      · exact Nat.lt_succ_of_lt (hbound n hn)
      · rw [List.mem_singleton.mp hn]
        exact Nat.lt_succ_self _
    · exact Nat.lt_succ_of_lt (h.bounded p j u hu n hn)
  · intro x hx
    show ∃! p, (w.store.put .live i (some (t.append ⟨w.next, m⟩ fate))).HeldIn p x
    rcases hsent hx with hx | ⟨rfl, rfl⟩
    · refine existsUnique_put (fun hi => ?_) (h.kept x hx)
      constructor
      · rintro ⟨u, hu, hn⟩
        obtain rfl := Option.some.inj hu
        rcases List.mem_append.mp (hnumbers.subset hn) with hn | hn
        · rcases hlive with rfl | hfile
          · cases hn
          · exact ⟨t, hi ▸ hfile, hn⟩
        · exact absurd (List.mem_singleton.mp hn) (h.number_lt hx).ne
      · rintro ⟨u, hu, hn⟩
        have htu : t = u := by rw [← ht, ← hi, hu]; rfl
        subst htu
        exact ⟨_, rfl, Transcript.mem_append hn (fun e he => h.finished x hx _ _ e hu he) _ _⟩
    · refine ⟨.live, ⟨_, by rw [file_put]; simp; rfl, Transcript.mem_written (hrest rfl) _⟩, ?_⟩
      rintro p ⟨u, hu, hn⟩
      by_contra hp
      rw [file_put, if_neg (fun hp' => hp hp'.1)] at hu
      exact absurd (h.bounded p _ u hu _ hn) (Nat.lt_irrefl _)
  · intro x hx p u e hu hue
    rcases hfile hu with ⟨hi, rfl⟩ | hu
    · rcases Transcript.rest_append hue with hrest' | ⟨rfl, hfate⟩
      · rcases hsent hx with hx | ⟨hwritten, -⟩
        · rcases hlive with rfl | hfile
          · cases hrest'
          · exact h.finished x hx _ _ e (hi ▸ hfile) hrest'
        · rw [hrest hwritten] at hrest'
          cases hrest'
      · rcases hsent hx with hx | ⟨hwritten, -⟩
        · exact (h.number_lt hx).ne'
        · exact absurd hwritten hfate
    · rcases hsent hx with hx | ⟨-, rfl⟩
      · exact h.finished x hx p u e hu hue
      · exact (h.bounded p _ u hu _ (Transcript.mem_rest hue)).ne
  · intro x hx
    rcases hsent hx with hx | ⟨-, rfl⟩
    · exact h.epoch x hx
    · rfl

theorem Law.append_step (h : Law w) (i : SessionId) (m : μ) (fate : Fate)
    (hsound : Sound repair w (.append i m fate)) : Law (w.step repair (.append i m fate)).1 := by
  have hskip : w.store.append i ⟨w.next, m⟩ fate = w.store → w.accepts i fate = false →
      Law (w.step repair (.append i m fate)).1 := by
    intro hstore haccepts
    simp only [Watched.step, hstore, haccepts, Bool.false_eq_true, if_false]
    exact ⟨h.counter, h.fresh, h.mesh, h.meshFile, h.ordered,
      fun p i t ht n hn => Nat.lt_succ_of_lt (h.bounded p i t ht n hn), h.kept, h.finished,
      h.epoch⟩
  cases hspawn : isSpawnSession i with
  | true => exact hskip (by simp [Sessions.append, hspawn]) (by simp [Watched.accepts, hspawn])
  | false =>
    cases htomb : w.store.isTombstoned i with
    | true => exact hskip (by simp [Sessions.append, htomb]) (by simp [Watched.accepts, htomb])
    | false =>
      by_cases hopen : fate = .unopened
      · exact hskip (by simp [Sessions.append, hopen]) (by simp [Watched.accepts, hopen])
      obtain ⟨hid, hrest⟩ := hsound hspawn htomb hopen
      have hlaw := h.appended m fate rfl hid fun hwritten => by
        cases hfile : w.store.file .live i with
        | none => rfl
        | some t => exact hrest hwritten t hfile
      simpa [Watched.step, Sessions.append, Watched.accepts, hspawn, htomb, hopen] using hlaw

theorem Law.tombstone (h : Law w) (i : SessionId) :
    Law { w with store := w.store.tombstone i } :=
  h.of_files rfl (fun _ hx => hx) (fun p _ _ ht => ⟨p, ht⟩) h.kept

/-- The live file is removed: its session is deleted. -/
theorem Law.removeFile (h : Law w) (i : SessionId) (ok : Bool) :
    Law { w with
      store := (w.store.removeFile i ok).1
      sent := if (w.store.removeFile i ok).2 then
          w.sent.filter (fun x => !decide (x.id = i ∧ x.epoch = w.epoch i))
        else w.sent } := by
  have hsent : ∀ x ∈ w.sent.filter (fun x => !decide (x.id = i ∧ x.epoch = w.epoch i)),
      x ∈ w.sent ∧ x.id ≠ i := by
    intro x hx
    obtain ⟨hx, hne⟩ := List.mem_filter.mp hx
    refine ⟨hx, fun hi => ?_⟩
    simp [hi, h.epoch x hx] at hne
  unfold Sessions.removeFile
  split
  · refine h.of_files rfl (fun x hx => (hsent x hx).1) (fun p j t ht => ?_) fun x hx => ?_
    · simp only [file_put] at ht
      split at ht
      · cases ht
      · exact ⟨p, ht⟩
    · show ∃! p, (w.store.put .live i none).HeldIn p x
      exact existsUnique_put (fun hi => absurd hi (hsent x hx).2) (h.kept x (hsent x hx).1)
  · exact h

/-- The live file is renamed over what is in the archive. -/
theorem Law.archiveFile (h : Law w) (i : SessionId) (dirOk ok : Bool)
    (hover : dirOk = true → ok = true → (w.store.file .live i).isSome = true →
      ∀ x ∈ w.sent, x.id = i → ¬ w.store.HeldIn .archived x) :
    Law { w with store := (w.store.archiveFile i dirOk ok).1 } := by
  cases dirOk with
  | false => simpa [Sessions.archiveFile] using h
  | true =>
    cases hfile : w.store.file .live i with
    | none => simpa [Sessions.archiveFile, hfile] using h
    | some t =>
      cases ok with
      | false => simpa [Sessions.archiveFile, hfile] using h
      | true =>
        have hover' := hover rfl rfl (by rw [hfile]; rfl)
        have hstore : (w.store.archiveFile i true true).1 =
            (w.store.put .live i none).put .archived i (some t) := by
          simp [Sessions.archiveFile, hfile]
        rw [hstore]
        refine h.of_files rfl (fun x hx => hx) (fun p j u hu => ?_) fun x hx => ?_
        · simp only [file_put] at hu
          split at hu
          · rename_i hpj
            exact ⟨.live, by rw [hpj.2, hfile, hu]⟩
          · split at hu
            · cases hu
            · exact ⟨p, hu⟩
        · exact existsUnique_move (by decide) hfile (hover' x hx) (h.kept x hx)

/-- A plain file is compressed, or dropped for the compressed one that is there. -/
theorem Law.gzipJsonl (h : Law w) (archive : Bool) (i : SessionId) (copied removed : Bool)
    (hsafe : (∀ x ∈ w.sent, x.id = i → ¬ w.store.HeldIn ⟨archive, false⟩ x) ∨
      ((w.store.file ⟨archive, true⟩ i).isNone = true ∧ (copied = true → removed = true))) :
    Law { w with store := w.store.gzipJsonl archive i copied removed } := by
  have hplaces : (⟨archive, false⟩ : Place) ≠ ⟨archive, true⟩ := by simp
  cases hfile : w.store.file ⟨archive, false⟩ i with
  | none => simpa [Sessions.gzipJsonl, hfile] using h
  | some t =>
    have hsource : ∀ x, x.id = i →
        (x.number ∈ t.numbers ↔ w.store.HeldIn ⟨archive, false⟩ x) := by
      rintro x rfl
      simp [Sessions.HeldIn, hfile]
    by_cases hgz : (w.store.file ⟨archive, true⟩ i).isSome = true
    · -- the plain file is dropped
      cases removed with
      | false => simpa [Sessions.gzipJsonl, hfile, hgz] using h
      | true =>
        have hstore : w.store.gzipJsonl archive i copied true =
            w.store.put ⟨archive, false⟩ i none := by
          simp [Sessions.gzipJsonl, hfile, hgz]
        have hnot := hsafe.resolve_right fun hgz' => by
          simp [Option.isNone_iff_eq_none.mp hgz'.1] at hgz
        rw [hstore]
        refine h.of_files rfl (fun x hx => hx) (fun p j u hu => ?_) fun x hx => ?_
        · rw [file_put] at hu
          split at hu
          · cases hu
          · exact ⟨p, hu⟩
        · exact existsUnique_put (fun hi => iff_of_false (by simp) (hnot x hx hi)) (h.kept x hx)
    · have hnone : w.store.file ⟨archive, true⟩ i = none := by simpa using hgz
      cases copied with
      | false => simpa [Sessions.gzipJsonl, hfile, hnone] using h
      | true =>
        have hgzNone : ∀ x, x.id = i → ¬ w.store.HeldIn ⟨archive, true⟩ x := by
          rintro x rfl ⟨u, hu, -⟩
          rw [hnone] at hu
          cases hu
        cases removed with
        | true =>
          have hstore : w.store.gzipJsonl archive i true true =
              (w.store.put ⟨archive, false⟩ i none).put ⟨archive, true⟩ i (some t) := by
            rw [put_comm hplaces]
            simp [Sessions.gzipJsonl, hfile, hnone]
          rw [hstore]
          refine h.of_files rfl (fun x hx => hx) (fun p j u hu => ?_) fun x hx => ?_
          · simp only [file_put] at hu
            split at hu
            · rename_i hpj
              exact ⟨⟨archive, false⟩, by rw [hpj.2, hfile, hu]⟩
            · split at hu
              · cases hu
              · exact ⟨p, hu⟩
          · exact existsUnique_move hplaces hfile (hgzNone x) (h.kept x hx)
        | false =>
          have hstore : w.store.gzipJsonl archive i true false =
              w.store.put ⟨archive, true⟩ i (some t) := by
            simp [Sessions.gzipJsonl, hfile, hnone]
          have hnot := hsafe.resolve_right fun hremoved => by simp at hremoved
          rw [hstore]
          refine h.of_files rfl (fun x hx => hx) (fun p j u hu => ?_) fun x hx => ?_
          · rw [file_put] at hu
            split at hu
            · rename_i hpj
              exact ⟨⟨archive, false⟩, by rw [hpj.2, hfile, hu]⟩
            · exact ⟨p, hu⟩
          · refine existsUnique_put (fun hi => iff_of_false ?_ (hgzNone x hi)) (h.kept x hx)
            rintro ⟨u, hu, hn⟩
            obtain rfl := Option.some.inj hu
            exact hnot x hx hi ((hsource x hi).mp hn)

theorem le_maxId {ids : List SessionId} {i : SessionId} (hi : i ∈ ids) :
    i ≤ Sessions.maxId ids := by
  induction ids with
  | nil => cases hi
  | cons j ids ih =>
    simp only [Sessions.maxId, List.foldr_cons] at ih ⊢
    rcases List.mem_cons.mp hi with rfl | hi
    · split
      · exact UInt64.le_refl _
      · exact UInt64.le_of_lt (UInt64.not_le.mp ‹_›)
    · split
      · exact UInt64.le_trans (ih hi) ‹_›
      · exact ih hi

theorem maxId_lt {ids : List SessionId} {b : SessionId} (hb : 0 < b) (h : ∀ i ∈ ids, i < b) :
    Sessions.maxId ids < b := by
  induction ids with
  | nil => exact hb
  | cons j ids ih =>
    simp only [Sessions.maxId, List.foldr_cons] at ih ⊢
    split
    · exact h j List.mem_cons_self
    · exact ih fun i hi => h i (List.mem_cons_of_mem _ hi)

theorem le_maxLoadedSid {s : Sessions μ} {readable : SessionId → Bool} {j : SessionId}
    (h : j ∈ s.seen repair readable) : j ≤ s.maxLoadedSid repair readable := by
  rcases List.mem_append.mp h with hj | hj
  · obtain ⟨⟨i, t⟩, hx, rfl⟩ := List.mem_map.mp hj
    obtain ⟨hx, hlive⟩ := List.mem_filter.mp hx
    simp only [Bool.and_eq_true, Bool.not_eq_true', decide_eq_true_eq] at hlive
    obtain ⟨⟨⟨hworker, hbase⟩, hreadable⟩, hrepair⟩ := hlive
    refine UInt64.le_trans (le_maxId ?_) (le_maxId List.mem_cons_self)
    refine List.mem_filter.mpr ⟨List.mem_map.mpr ⟨(i, repair t.messages), ?_, rfl⟩, by simpa⟩
    refine List.mem_filterMap.mpr ⟨(i, t), hx, ?_⟩
    simp only [hworker, hreadable, hrepair, Bool.not_true, Bool.false_eq_true, if_false]
  · exact UInt64.le_trans (le_maxId hj) (le_maxId (List.mem_cons_of_mem _ List.mem_cons_self))

theorem maxLoadedSid_lt {s : Sessions μ} {readable : SessionId → Bool}
    (h : ∀ i ∈ (s.meshFile.getD .empty).values, i < workerSessionBase) :
    s.maxLoadedSid repair readable < workerSessionBase := by
  refine maxId_lt (by decide) fun i hi => ?_
  rcases List.mem_cons.mp hi with rfl | hi
  · exact maxId_lt (by decide) fun j hj => by simpa using (List.mem_filter.mp hj).2
  · rw [List.mem_singleton.mp hi]
    exact maxId_lt (by decide) h

/-- The daemon starts again. -/
theorem Law.boot (h : Law w) (readable : SessionId → Bool)
    (hsound : Sound repair w (.restart readable)) :
    Law { w with store := w.store.boot repair readable } := by
  have hmesh : ∀ i ∈ (w.store.meshFile.getD .empty).values, i < w.store.nextSessionId := by
    intro i hi
    cases hfile : w.store.meshFile with
    | none =>
      rw [hfile] at hi
      cases hi
    | some m =>
      rw [hfile] at hi
      exact h.meshFile m hfile i hi
  have hbase : w.store.maxLoadedSid repair readable < workerSessionBase :=
    maxLoadedSid_lt fun i hi => UInt64.lt_of_lt_of_le (hmesh i hi) h.counter
  have hseen : ∀ i, ∀ j ∈ w.store.seen repair readable, i ≤ j →
      i < (w.store.boot repair readable).nextSessionId := fun i j hj hij =>
    lt_succ_of_le hbase (UInt64.le_trans hij (le_maxLoadedSid hj))
  have hmeshSeen : ∀ i ∈ (w.store.meshFile.getD .empty).values,
      i < (w.store.boot repair readable).nextSessionId := fun i hi =>
    hseen i i (List.mem_append_right _ hi) (UInt64.le_refl _)
  refine ⟨succ_le_of_lt hbase, ?_, hmeshSeen, ?_, h.ordered, h.bounded, h.kept, h.finished,
    h.epoch⟩
  · intro p i t ht
    cases hworker : isWorkerSession i with
    | true => exact .inr rfl
    | false =>
      obtain ⟨j, hj, hij⟩ := hsound p.archive p.gz (i, t) (Table.mem_iff_get?.mpr ht) hworker
      exact .inl (hseen i j hj hij)
  · intro m hm i hi
    have hm' : w.store.meshFile = some m := hm
    exact hmeshSeen i (by rw [hm']; exact hi)

/-- **Every sound step keeps the invariant.** -/
theorem Law.step (h : Law w) (e : Event μ) (hsound : Sound repair w e) :
    Law (w.step repair e).1 := by
  cases e with
  | connect => exact h.handOut hsound
  | mesh peer write => exact h.mesh_step peer write hsound
  | append i m fate => exact h.append_step i m fate hsound
  | delete i ok =>
    simp only [Watched.step]
    split
    · exact h
    · exact (h.tombstone i).removeFile i ok
  | archive i dirOk ok =>
    simp only [Watched.step]
    split
    · exact h
    · rename_i hi
      exact (h.tombstone i).archiveFile i dirOk ok (hsound hi)
  | gzip archive i loaded age ttl copied removed =>
    simp only [Watched.step]
    split
    · exact h.gzipJsonl archive i copied removed (hsound ‹_›)
    · exact h
  | loadOne i readable => exact h
  | restart readable => exact h.boot readable hsound

/-- **A sound step from the invariant is as expected.** -/
theorem Law.intact (h : Law w) (e : Event μ) (hsound : Sound repair w e) : Intact repair w e where
  kept := (h.step e hsound).kept
  ordered := (h.step e hsound).ordered
  fresh hout p := by
    cases e with
    | connect => exact h.no_file hsound p
    | mesh peer write => exact h.no_file (hsound hout) p
    | append | delete | archive | gzip | loadOne | restart => exact hout.elim

/-! Four runs that are not as expected. -/

/-- A session of one message, that is archived. -/
def archivedSession : List (Event Unit) :=
  [.connect, .append 1 () .written, .archive 1 true true]

/-- The daemon starts again, everything can be read. -/
def restarted : Event Unit := .restart fun _ => true

/-- The file's turn in a sweep, when it is old enough. -/
def swept : Event Unit := .gzip true 1 [] 2 1 true true

theorem not_kept {w : Watched μ} {x : Sent} (hx : x ∈ w.sent)
    (hlost : ∀ archive gz, ¬ w.store.HeldIn ⟨archive, gz⟩ x) :
    ¬ ∀ x ∈ w.sent, ∃! p, w.store.HeldIn p x := by
  intro h
  obtain ⟨p, hp, -⟩ := h x hx
  exact hlost p.archive p.gz hp

/-- The counter starts below the id of an archived session, and hands it out again; the second
session's file is renamed over the first one's; a sweep drops it for the compressed one of the
first; a message is appended to a line that was not finished. -/
theorem not_intact :
    ¬ Run.Always (Watched.step id) Watched.new (fun _ w e => Intact id w e)
        (archivedSession ++ [restarted] ++ [.connect]) ∧
      ¬ Run.Always (Watched.step id) Watched.new (fun _ w e => Intact id w e)
        (archivedSession ++ [restarted, .connect, .append 1 () .written] ++
          [.archive 1 true true]) ∧
      ¬ Run.Always (Watched.step id) Watched.new (fun _ w e => Intact id w e)
        (archivedSession ++ [swept, restarted, .connect, .append 1 () .written,
          .archive 1 true true] ++ [swept]) ∧
      ¬ Run.Always (Watched.step id) Watched.new (fun _ w e => Intact id w e)
        ([.connect, .append 1 () (.part false)] ++ [.append 1 () .written]) := by
  refine ⟨fun h => ?_, fun h => ?_, fun h => ?_, fun h => ?_⟩
  · have hnone := (Run.always_concat.mp h).2.fresh trivial .archived
    exact absurd (congrArg Option.isNone hnone) (by decide +kernel)
  · exact not_kept (x := ⟨1, 1, 0⟩) (by decide +kernel) (by decide +kernel)
      (Run.always_concat.mp h).2.kept
  · exact not_kept (x := ⟨1, 2, 1⟩) (by decide +kernel) (by decide +kernel)
      (Run.always_concat.mp h).2.kept
  · exact not_kept (x := ⟨1, 1, 1⟩) (by decide +kernel) (by decide +kernel)
      (Run.always_concat.mp h).2.kept

/-- **In every sound run the transcripts are kept, in order, each in one file, and no id is handed
out twice.** -/
theorem intact_of_sound (repair : List μ → List μ) (events : List (Event μ))
    (hsound : Run.Always (Watched.step repair) Watched.new (fun _ w e => Sound repair w e) events) :
    Run.Always (Watched.step repair) Watched.new (fun _ w e => Intact repair w e) events :=
  Run.Always.of_invariant (I := fun _ w => Law w) Law.new (fun _ _ e h hs => h.step e hs)
    (fun _ _ e h hs => h.intact e hs) hsound

/-- Two sessions, the first archived and compressed; the second is there at the restart. -/
theorem intact_of_sound_archive :
    Run.Always (Watched.step id) Watched.new (fun _ w e => Intact id w e)
      (archivedSession ++ [swept, .connect, .append 2 () .written, restarted, .connect,
        .append 2 () .written]) :=
  intact_of_sound id _ (by decide +kernel)

end Law

end ApexOS.Agentd.Transcripts
